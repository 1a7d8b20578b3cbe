import RecordMapper.DataType
import RecordMapper.Value

/-!
# Expressions

Trees that stand for predicates, orderings and operands of a query over one record type. A constant
is a value, a list of values, or an object whose members can be read by name.
-/

namespace RecordMapper

/-! ## Constants -/

inductive HostValue
  | scalar (v : Value)
  | list (items : List Value)
  | object (typeName : String) (members : List (String × HostValue))

instance : Inhabited HostValue := ⟨.scalar .null⟩

namespace HostValue

def isNull : HostValue → Bool
  | scalar v => v.isNull
  | _ => false

def kind : HostValue → String
  | scalar v => v.kind
  | list _ => "list"
  | object typeName _ => typeName

def member? (v : HostValue) (name : String) : Option HostValue :=
  match v with
  | object _ members => (members.find? fun (key, _) => key == name).map Prod.snd
  | _ => none

def diagnostic : HostValue → String
  | scalar v => "Scalar(" ++ v.diagnostic ++ ")"
  | list items => listed "List([" (items.map Value.diagnostic) "])"
  | object typeName _ => "Object(" ++ typeName ++ ")"

end HostValue

/-! ## Operators -/

inductive BinaryOperator
  | gt
  | ge
  | lt
  | le
  | bitAnd
  | and
  | bitOr
  | or
  | eq
  | ne
  | add
  | sub
  | mul
  | div
  | rem
  deriving DecidableEq, Repr, Inhabited

namespace BinaryOperator

def name : BinaryOperator → String
  | gt => "Gt"
  | ge => "Ge"
  | lt => "Lt"
  | le => "Le"
  | bitAnd => "BitAnd"
  | and => "And"
  | bitOr => "BitOr"
  | or => "Or"
  | eq => "Eq"
  | ne => "Ne"
  | add => "Add"
  | sub => "Sub"
  | mul => "Mul"
  | div => "Div"
  | rem => "Rem"

/-- The spelling in a statement; arithmetic has none. -/
def spelling : BinaryOperator → Option String
  | gt => some ">"
  | ge => some ">="
  | lt => some "<"
  | le => some "<="
  | bitAnd => some "&"
  | and => some "and"
  | bitOr => some "|"
  | or => some "or"
  | eq => some "="
  | ne => some "<>"
  | add | sub | mul | div | rem => none

end BinaryOperator

inductive UnaryOperator
  | not
  | neg
  deriving DecidableEq, Repr, Inhabited

def UnaryOperator.name : UnaryOperator → String
  | not => "Not"
  | neg => "Neg"

/-! ## Trees -/

inductive Expression
  /-- The record that is queried. -/
  | parameter
  | constant (v : HostValue)
  | member (object : Expression) (name : String)
  | binary (op : BinaryOperator) (left right : Expression)
  /-- A function applied to arguments. -/
  | call (function : String) (arguments : List Expression)
  /-- A function of a receiver, applied to arguments. -/
  | method (receiver : Expression) (function : String) (arguments : List Expression)
  | convert (operand : Expression) (target : DataType)
  | unary (op : UnaryOperator) (operand : Expression)
  | conditional (test ifTrue ifFalse : Expression)

instance : Inhabited Expression := ⟨.parameter⟩

namespace Expression

def kind : Expression → String
  | parameter => "Parameter"
  | constant _ => "Constant"
  | member _ _ => "MemberAccess"
  | binary _ _ _ => "Binary"
  | call _ _ | method _ _ _ => "Call"
  | convert _ _ => "Convert"
  | unary _ _ => "Unary"
  | conditional _ _ _ => "Conditional"

def property (name : String) : Expression := member parameter name

def like (a pattern : Expression) : Expression := call "like" [a, pattern]

def isIn (a : Expression) (items : List Value) : Expression :=
  call "contains" [constant (.list items), a]

/-- A substring test on text, a membership test on a list. -/
def contains (a item : Expression) : Expression := method a "contains" [item]

def startsWith (a head : Expression) : Expression := method a "starts_with" [head]

def endsWith (a tail : Expression) : Expression := method a "ends_with" [tail]

def equals (a b : Expression) : Expression := method a "equals" [b]

def toLower (a : Expression) : Expression := method a "to_lower" []

def toUpper (a : Expression) : Expression := method a "to_upper" []

end Expression

end RecordMapper
