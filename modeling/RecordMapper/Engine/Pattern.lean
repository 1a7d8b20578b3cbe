import RecordMapper.Engine.Cell
import RecordMapper.Text.Zero

/-!
# Pattern matching

A per cent sign stands for any run of characters and an underscore for any one; other characters
stand for themselves, ASCII letters in either case. An escape character makes the next character
stand for itself.
-/

namespace RecordMapper

namespace Pattern

inductive Part
  | any
  | one
  | exactly (c : Char)
  deriving DecidableEq, Repr

/-- The parts of a pattern; an escape at its very end stands for nothing that matches. -/
def parts (escape : Option Char) : List Char → List (Option Part)
  | [] => []
  | [c] =>
    if some c = escape then [none]
    else if c = '%' then [some .any] else if c = '_' then [some .one] else [some (.exactly c)]
  | c :: d :: r =>
    if some c = escape then some (.exactly d) :: parts escape r
    else
      (if c = '%' then some .any else if c = '_' then some .one else some (.exactly c))
        :: parts escape (d :: r)

/-- Whether two characters are one up to the case of ASCII letters. -/
def sameLetter (a b : Char) : Bool := a.toLower == b.toLower

/-- Whether some tail of the text passes a test. -/
def someTail (test : List Char → Bool) : List Char → Bool
  | [] => test []
  | c :: r => test (c :: r) || someTail test r

/-- Whether the text has the form of the parts. -/
def matchesParts : List (Option Part) → List Char → Bool
  | [], text => text.isEmpty
  | none :: _, _ => false
  | some .any :: ps, text => someTail (matchesParts ps) text
  | some .one :: ps, text =>
    match text with
    | _ :: r => matchesParts ps r
    | [] => false
  | some (.exactly c) :: ps, text =>
    match text with
    | d :: r => sameLetter c d && matchesParts ps r
    | [] => false

def likes (pattern text : String) (escape : Option Char) : Bool :=
  matchesParts (parts escape pattern.toList) text.toList

end Pattern

end RecordMapper
