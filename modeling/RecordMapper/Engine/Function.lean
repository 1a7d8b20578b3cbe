import RecordMapper.Engine.Fault
import RecordMapper.Engine.Pattern
import RecordMapper.Number.Rounding

/-!
# Functions of the storage engine

Each function takes cells and gives a cell. Letters are folded for ASCII alone; texts are counted in
characters.
-/

namespace RecordMapper

namespace Function

/-- The functions and the numbers of arguments that each admits; no upper bound is `none`. -/
def signatures : List (String × Nat × Option Nat) :=
  [("abs", 1, some 1), ("coalesce", 2, none), ("ifnull", 2, some 2), ("nullif", 2, some 2),
    ("length", 1, some 1), ("lower", 1, some 1), ("upper", 1, some 1), ("typeof", 1, some 1),
    ("like", 2, some 3), ("instr", 2, some 2), ("substr", 2, some 3), ("substring", 2, some 3),
    ("trim", 1, some 2), ("ltrim", 1, some 2), ("rtrim", 1, some 2), ("replace", 3, some 3),
    ("hex", 1, some 1), ("quote", 1, some 1), ("round", 1, some 2), ("max", 2, none),
    ("min", 2, none), ("char", 0, none), ("unicode", 1, some 1), ("iif", 3, some 3),
    ("sign", 1, some 1), ("likely", 1, some 1), ("unlikely", 1, some 1), ("zeroblob", 1, some 1),
    ("changes", 0, some 0), ("total_changes", 0, some 0), ("last_insert_rowid", 0, some 0)]

/-- The functions of whole columns, with the numbers of arguments. -/
def aggregates : List (String × Nat × Nat) :=
  [("count", 0, 1), ("sum", 1, 1), ("total", 1, 1), ("avg", 1, 1), ("max", 1, 1), ("min", 1, 1),
    ("group_concat", 1, 2), ("string_agg", 2, 2)]

def isAggregate (name : String) (arguments : Nat) : Bool :=
  aggregates.any fun (n, low, high) =>
    n == foldCase name && decide (low ≤ arguments) && decide (arguments ≤ high)

/-- Whether the function exists, and whether it takes that many arguments. -/
def admits (name : String) (arguments : Nat) : Option Bool :=
  match signatures.find? fun (n, _) => n == foldCase name with
  | some (_, low, high) => some (decide (low ≤ arguments) && high.all fun h => decide (arguments ≤ h))
  | none => if aggregates.any fun (n, _) => n == foldCase name then some false else none

def text? (c : Cell) : Option String := if c.isNull then none else some c.textForm

def onText (c : Cell) (f : String → Cell) : Cell :=
  match text? c with
  | some s => f s
  | none => .null

/-- The length of a text up to its first zero character, or of bytes. -/
def length : Cell → Cell
  | .null => .null
  | .blob bytes => Cell.ofInt bytes.length
  | c => Cell.ofInt (untilZero c.textForm).length

/-- The absolute value; the least integer has none. -/
def abs (c : Cell) : Except EngineFault Cell :=
  match c with
  | .null => .ok .null
  | .integer i =>
    if i.toInt = minInt64 then .error .integerOverflow else .ok (Cell.ofInt i.toInt.natAbs)
  | c =>
    let x := c.toFloat
    .ok (Cell.ofFloat (if x < 0 then -x else x))

/-- The part of a list from a place counted from one, or from the end when negative. -/
def part {α : Type} (items : List α) (start : Int) (count : Option Int) : List α :=
  let size : Int := items.length
  let first : Int := if start > 0 then start - 1 else if start < 0 then size + start else 0
  let wanted : Int := count.getD (size + 1)
  let wanted : Int := if start = 0 ∧ count.isSome ∧ 0 < wanted then wanted - 1 else wanted
  let low : Int := if 0 ≤ wanted then first else first + wanted
  let high : Int := if 0 ≤ wanted then first + wanted else first
  let low := max low 0
  let high := max (min high size) low
  (items.drop low.toNat).take (high - low).toNat

def substring (c start : Cell) (count : Option Cell) : Cell :=
  if c.isNull || start.isNull || count.any Cell.isNull then .null
  else
    let start := start.toInt64.toInt
    let count := count.map fun n => n.toInt64.toInt
    match c with
    | .blob bytes => .blob (part bytes start count)
    | c => .text (String.ofList (part c.textForm.toList start count))

/-- The place of a list inside another, counted from one. -/
def placeOf {α : Type} [BEq α] (needle : List α) : List α → Nat → Nat
  | [], n => if needle.isEmpty then n else 0
  | c :: r, n => if needle.isPrefixOf (c :: r) then n else placeOf needle r (n + 1)

/-- A text with the characters of a set taken off its ends. -/
def trim (left right : Bool) (s set : String) : String :=
  let drop (cs : List Char) : List Char := cs.dropWhile fun c => set.toList.contains c
  let cs := if left then drop s.toList else s.toList
  String.ofList (if right then (drop cs.reverse).reverse else cs)

/-- A text with each occurrence of a part exchanged, scanned from the left. -/
def exchange (old new : List Char) : Nat → List Char → List Char
  | 0, cs => cs
  | _ + 1, [] => []
  | fuel + 1, c :: r =>
    if old.isPrefixOf (c :: r) then new ++ exchange old new fuel ((c :: r).drop old.length)
    else c :: exchange old new fuel r

/-- A number rounded to some places, halves away from zero. -/
def round (c : Cell) (places : Int) : Cell :=
  match c.number with
  | .null => .null
  | n =>
    let x := n.toFloat
    match BinaryView.ofFloat x with
    | .finite negative m e =>
      let digits := (min (max places 0) 30).toNat
      let d := Significant.halfUp (m * twoTo e.toNat * tenTo digits) (twoTo (-e).toNat)
      let size := Float.ofScientific d true digits
      .real (if negative then -size else size)
    | _ => .real x

/-- The greatest or least of some cells; any null makes it null. -/
def extreme (greatest : Bool) (collation : Collation) : List Cell → Cell
  | [] => .null
  | c :: r =>
    if (c :: r).any Cell.isNull then .null
    else r.foldl (fun best d =>
      let o := Cell.order collation d best
      if (greatest && o == .gt) || (!greatest && o == .lt) then d else best) c

/-- The upper-case hexadecimal digits of a cell's bytes. -/
def hexText (c : Cell) : String := raiseCase c.textBytes.toHex

/-- The value of a function that does not depend on the connection. -/
def apply (name : String) (collation : Collation) (args : List Cell) : Except EngineFault Cell :=
  match foldCase name, args with
  | "abs", [c] => abs c
  | "coalesce", cs | "ifnull", cs => .ok ((cs.find? fun c => !c.isNull).getD .null)
  | "nullif", [a, b] =>
    .ok (if !a.isNull && !b.isNull && Cell.same collation a b then .null else a)
  | "length", [c] => .ok (length c)
  | "lower", [c] => .ok (onText c fun s => .text (foldCase s))
  | "upper", [c] => .ok (onText c fun s => .text (raiseCase s))
  | "typeof", [c] => .ok (.text c.className)
  | "like", p :: c :: rest =>
    match text? p, text? c with
    | some p, some s =>
      .ok (Cell.ofBool (Pattern.likes (untilZero p) (untilZero s)
        ((rest.head?.bind text?).bind fun e => e.toList.head?)))
    | _, _ => .ok .null
  | "instr", [a, b] =>
    match a, b with
    | .null, _ | _, .null => .ok .null
    | .blob x, .blob y => .ok (Cell.ofInt (placeOf y x 1))
    | a, b => .ok (Cell.ofInt (placeOf b.textForm.toList a.textForm.toList 1))
  | "substr", [c, s] | "substring", [c, s] => .ok (substring c s none)
  | "substr", [c, s, n] | "substring", [c, s, n] => .ok (substring c s (some n))
  | "trim", [c] => .ok (onText c fun s => .text (trim true true s " "))
  | "ltrim", [c] => .ok (onText c fun s => .text (trim true false s " "))
  | "rtrim", [c] => .ok (onText c fun s => .text (trim false true s " "))
  | "trim", [c, t] => .ok (onText c fun s => onText t fun t => .text (trim true true s t))
  | "ltrim", [c, t] => .ok (onText c fun s => onText t fun t => .text (trim true false s t))
  | "rtrim", [c, t] => .ok (onText c fun s => onText t fun t => .text (trim false true s t))
  | "replace", [c, a, b] =>
    .ok (onText c fun s => onText a fun a => onText b fun b =>
      if a.isEmpty then .text s
      else .text (String.ofList (exchange a.toList b.toList (s.length + 1) s.toList)))
  | "hex", [c] => .ok (.text (hexText c))
  | "quote", [c] =>
    .ok (.text (match c with
      | .blob bytes => "X'" ++ raiseCase bytes.toHex ++ "'"
      | c => c.literal))
  | "round", [c] => .ok (round c 0)
  | "round", [c, n] => .ok (if n.isNull then .null else round c n.toInt64.toInt)
  | "max", cs => .ok (extreme true collation cs)
  | "min", cs => .ok (extreme false collation cs)
  | "char", cs => .ok (.text (String.ofList (cs.map fun c => Char.ofNat c.toInt64.toInt.toNat)))
  | "unicode", [c] =>
    .ok (onText c fun s => match s.toList with
      | a :: _ => Cell.ofInt a.toNat
      | [] => .null)
  | "iif", [test, a, b] => .ok (if test.truth == some true then a else b)
  | "sign", [c] =>
    match c with
    | .integer _ | .real _ =>
      .ok (Cell.ofInt (match Cell.order .binary c (.integer 0) with
        | .lt => -1
        | .eq => 0
        | .gt => 1))
    | _ => .ok .null
  | "likely", [c] | "unlikely", [c] => .ok c
  | "zeroblob", [c] => .ok (.blob (List.replicate c.toInt64.toInt.toNat 0))
  | _, _ => .ok .null

end Function

end RecordMapper
