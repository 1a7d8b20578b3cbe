import RecordMapper.Expression.Basic
import RecordMapper.Schema.Diagnostic

/-!
# Expressions in diagnostics

The full tree of an expression with the names of its parts.
-/

namespace RecordMapper

namespace Expression

mutual

def diagnostic : Expression → String
  | parameter => "Parameter"
  | constant v => "Constant(" ++ v.diagnostic ++ ")"
  | member object name =>
    namedParts "Member" [("object", object.diagnostic), ("name", diagnosticText name)]
  | binary op left right =>
    namedParts "Binary" [("op", op.name), ("left", left.diagnostic), ("right", right.diagnostic)]
  | call function arguments =>
    namedParts "Call" [("method", diagnosticText function), ("object", "None"),
      ("args", listed "[" (diagnostics arguments) "]")]
  | method receiver function arguments =>
    namedParts "Call" [("method", diagnosticText function),
      ("object", "Some(" ++ receiver.diagnostic ++ ")"),
      ("args", listed "[" (diagnostics arguments) "]")]
  | convert operand target =>
    namedParts "Convert" [("operand", operand.diagnostic), ("target", target.diagnostic)]
  | unary op operand => namedParts "Unary" [("op", op.name), ("operand", operand.diagnostic)]
  | conditional test ifTrue ifFalse =>
    namedParts "Conditional" [("test", test.diagnostic), ("if_true", ifTrue.diagnostic),
      ("if_false", ifFalse.diagnostic)]

def diagnostics : List Expression → List String
  | [] => []
  | e :: r => e.diagnostic :: diagnostics r

end

end Expression

end RecordMapper
