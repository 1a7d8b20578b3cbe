import RecordMapper.Number.Significant
import RecordMapper.Number.Numeral
import RecordMapper.Text.Bytes
import RecordMapper.Text.Fold
import RecordMapper.Text.Quoted

/-!
# Storage cells

What a column of a stored row holds: nothing, a sixty-four bit integer, a real number, text or
bytes. Cells of different classes are ordered null, numbers, text, bytes; a column's affinity says
which class a cell is converted to when it is stored or compared.
-/

namespace RecordMapper

inductive Cell
  | null
  | integer (i : Int64)
  | real (x : Float)
  | text (s : String)
  /-- Text whose bytes are no UTF-8. -/
  | malformed (bytes : Bytes)
  | blob (bytes : Bytes)
  deriving DecidableEq, Inhabited

/-- How texts are compared. -/
inductive Collation
  | binary
  /-- Without regard to the case of ASCII letters. -/
  | noCase
  /-- Without regard to spaces at the end. -/
  | rtrim
  deriving DecidableEq, Repr, Inhabited

/-- The class that a column prefers. -/
inductive Affinity
  | blob
  | text
  | numeric
  | integer
  | real
  deriving DecidableEq, Repr, Inhabited

namespace Collation

def named? (name : String) : Option Collation :=
  if sameFolded name "binary" then some binary
  else if sameFolded name "nocase" then some noCase
  else if sameFolded name "rtrim" then some rtrim
  else none

/-- The bytes by which a text is compared. -/
def sortBytes (c : Collation) (bytes : Bytes) : Bytes :=
  match c with
  | binary => bytes
  | noCase => bytes.map fun b => if 65 ≤ b ∧ b ≤ 90 then b + 32 else b
  | rtrim => (bytes.reverse.dropWhile (· == 32)).reverse

end Collation

namespace Affinity

def hasPart (text part : List Char) : Bool :=
  match text with
  | [] => part.isEmpty
  | _ :: r => part.isPrefixOf text || hasPart r part

/-- The affinity of a declared type: decided by the first of some words that it contains. -/
def ofType (type : String) : Affinity :=
  let cs := type.toList.map Char.toUpper
  let has (part : String) : Bool := hasPart cs part.toList
  if has "INT" then integer
  else if has "CHAR" || has "CLOB" || has "TEXT" then text
  else if has "BLOB" || cs.isEmpty then blob
  else if has "REAL" || has "FLOA" || has "DOUB" then real
  else numeric

def isNumeric : Affinity → Bool
  | numeric | integer | real => true
  | _ => false

end Affinity

namespace Cell

def isNull : Cell → Bool
  | null => true
  | _ => false

def className : Cell → String
  | null => "null"
  | integer _ => "integer"
  | real _ => "real"
  | text _ | malformed _ => "text"
  | blob _ => "blob"

def ofTextBytes (bytes : Bytes) : Cell :=
  match bytes.text? with
  | some s => text s
  | none => malformed bytes

/-- A real number; not-a-number is null. -/
def ofFloat (x : Float) : Cell :=
  match BinaryView.ofFloat x with
  | .nan => null
  | _ => real x

/-- The cell as it is bound to a parameter: not-a-number becomes null. -/
def bound : Cell → Cell
  | real x => ofFloat x
  | c => c

/-- An integer, or the nearest real number when it does not fit. -/
def ofInt (i : Int) : Cell :=
  match int64? i with
  | some n => integer n
  | none => ofFloat (Float.ofInt i)

def ofBool (b : Bool) : Cell := integer (if b then 1 else 0)

/-! ## Numbers in text -/

def isSpace (c : Char) : Bool := c == ' ' || (9 ≤ c.toNat && c.toNat ≤ 13)

/-- The number of a numeral: an integer when it is written as one and fits. -/
def ofNumeral (n : Numeral) : Cell :=
  if n.integral then
    match int64? (if n.negative then -(n.digits : Int) else n.digits) with
    | some i => integer i
    | none => ofFloat n.toFloat
  else ofFloat n.toFloat

/-- The number at the head of a text; zero if there is none. -/
def numberAtHead (s : String) : Cell :=
  match Numeral.read (s.toList.dropWhile isSpace) with
  | some (n, _) => ofNumeral n
  | none => integer 0

/-- The number that a text is, spaces at its ends aside. -/
def wholeNumber? (s : String) : Option Cell :=
  match Numeral.read (s.toList.dropWhile isSpace) with
  | some (n, rest) => if rest.all isSpace then some (ofNumeral n) else none
  | none => none

def textForm : Cell → String
  | null => ""
  | integer i => toString i.toInt
  | real x => realText x
  | text s => s
  | malformed bytes | blob bytes => bytes.toText

def textBytes : Cell → Bytes
  | malformed bytes | blob bytes => bytes
  | c => Bytes.ofString c.textForm

/-- The cell as a number; text and bytes count as the number at their head. -/
def number : Cell → Cell
  | null => null
  | integer i => integer i
  | real x => real x
  | c => numberAtHead c.textForm

def toFloat (c : Cell) : Float :=
  match c.number with
  | integer i => Float.ofInt i.toInt
  | real x => x
  | _ => 0.0

/-- The cell as an integer: real numbers are cut off. -/
def toInt64 (c : Cell) : Int64 :=
  match c.number with
  | integer i => i
  | real x => truncateToInt64 x
  | _ => 0

/-- Whether a cell counts as true; null counts as neither. -/
def truth (c : Cell) : Option Bool :=
  match c.number with
  | null => none
  | integer i => some (i != 0)
  | real x =>
    match BinaryView.ofFloat x with
    | .finite _ 0 _ => some false
    | _ => some true
  | _ => none

def ofTruth : Option Bool → Cell
  | some b => ofBool b
  | none => null

/-! ## Affinity -/

/-- A real number as an integer when it is one, strictly inside the range. -/
def integralReal (x : Float) : Cell :=
  match BinaryView.ofFloat x with
  | .finite negative m e =>
    let i := BinaryView.truncated negative m e
    if (BinaryView.finite negative m e).isIntegral ∧ minInt64 < i ∧ i < maxInt64 then
      integer (Int64.ofInt i)
    else real x
  | _ => real x

/-- A text that is a number as that number. -/
def numericText (c : Cell) : Cell :=
  match c with
  | text s => (wholeNumber? s).getD c
  | c => c

/-- A cell as a column of the affinity stores it. -/
def stored (a : Affinity) (c : Cell) : Cell :=
  match a with
  | .blob => c
  | .text =>
    match c with
    | integer _ | real _ => text c.textForm
    | c => c
  | .numeric | .integer =>
    match numericText c with
    | real x => integralReal x
    | c => c
  | .real =>
    match numericText c with
    | integer i => ofFloat (Float.ofInt i.toInt)
    | c => c

/-- Two cells brought to one class for a comparison under an affinity. -/
def comparable (a : Option Affinity) (x y : Cell) : Cell × Cell :=
  match a with
  | some .text =>
    let texted (c : Cell) : Cell :=
      match c with
      | integer _ | real _ => text c.textForm
      | c => c
    match x, y with
    | text _, _ | malformed _, _ | _, text _ | _, malformed _ => (texted x, texted y)
    | _, _ => (x, y)
  | some a => if a.isNumeric then (numericText x, numericText y) else (x, y)
  | none => (x, y)

/-! ## Order -/

/-- The place of a cell's class in the order of cells. -/
def rank : Cell → Nat
  | null => 0
  | integer _ | real _ => 1
  | text _ | malformed _ => 2
  | blob _ => 3

/-- The number that a cell holds. -/
def view : Cell → BinaryView
  | integer i => .ofInt i.toInt
  | real x => .ofFloat x
  | _ => .nan

/-- The bytes by which a cell is compared with others of its class. -/
def sortBytes (c : Collation) : Cell → Bytes
  | text s => c.sortBytes (Bytes.ofString s)
  | malformed bytes => c.sortBytes bytes
  | blob bytes => bytes
  | _ => []

/-- Compares two cells: by class, then as numbers, then by their bytes. -/
def order (c : Collation) : Cell → Cell → Ordering :=
  compareLex (compareOn rank)
    (compareLex (fun x y => BinaryView.order x.view y.view)
      (fun x y => Bytes.order (x.sortBytes c) (y.sortBytes c)))

/-- Whether two cells are equal, nulls being equal. -/
def same (c : Collation) (x y : Cell) : Bool := order c x y == .eq

/-! ## Conversion -/

def cast (a : Affinity) (c : Cell) : Cell :=
  match c with
  | null => null
  | c =>
    match a with
    | .blob => blob c.textBytes
    | .text =>
      match c with
      | blob bytes => ofTextBytes bytes
      | text s => text s
      | malformed bytes => malformed bytes
      | c => text c.textForm
    | .integer =>
      match c with
      | text s =>
        match Numeral.read (s.toList.dropWhile isSpace) with
        | some (n, _) =>
          if n.integral then integer (clampInt64 (if n.negative then -(n.digits : Int) else n.digits))
          else integer (truncateToInt64 n.toFloat)
        | none => integer 0
      | c => integer c.toInt64
    | .real => ofFloat c.toFloat
    | .numeric =>
      match c.number with
      | real x => integralReal x
      | n => n

def literal : Cell → String
  | null => "NULL"
  | integer i => toString i.toInt
  | real x => realText x
  | text s => quoteLiteral s
  | malformed bytes => quoteLiteral bytes.toText
  | blob bytes => "x'" ++ bytes.toHex ++ "'"

end Cell

end RecordMapper
