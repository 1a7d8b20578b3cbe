import RecordMapper.Engine.Resolve

/-!
# Functions of whole columns

Each takes the cells that its arguments have in the rows and gives one cell. Nulls are left out,
except by a count of rows.
-/

namespace RecordMapper.Aggregate

/-- A sum of real numbers with the error that rounding has left. -/
structure Compensated where
  sum : Float
  error : Float

namespace Compensated

/-- Adds a number and keeps what the rounded sum loses. -/
def add (s : Compensated) (x : Float) : Compensated :=
  let t := s.sum + x
  let lost := if s.sum.abs > x.abs then (s.sum - t) + x else (x - t) + s.sum
  ⟨t, s.error + lost⟩

def total (s : Compensated) : Float :=
  if s.sum.isNaN || s.sum.isInf then s.sum else s.sum + s.error

/-- Adds an integer; one that a float might not hold is added in two parts. -/
def addInteger (s : Compensated) (i : Int) : Compensated :=
  if i.natAbs < 4503599627370496 then s.add (Float.ofInt i)
  else (s.add (Float.ofInt (i - i.tmod 16384))).add (Float.ofInt (i.tmod 16384))

end Compensated

/-- The sum of the numbers so far: exact as long as they are integers and fit, afterwards real,
with whether an integer sum did not fit and no real number has come since. -/
inductive Total
  | exact (n : Int)
  | real (s : Compensated) (overflowed : Bool)

namespace Total

def add : Total → Cell → Total
  | exact n, .integer i =>
    if FitsInt64 (n + i.toInt) then exact (n + i.toInt)
    else real ((Compensated.addInteger ⟨0.0, 0.0⟩ n).addInteger i.toInt) true
  | exact n, c => real ((Compensated.addInteger ⟨0.0, 0.0⟩ n).add c.toFloat) false
  | real s overflowed, .integer i => real (s.addInteger i.toInt) overflowed
  | real s _, c => real (s.add c.toFloat) false

/-- The sum of some cells; a text that spells a number counts as that number. -/
def of (cells : List Cell) : Total :=
  cells.foldl (fun s c =>
    s.add (match c with
      | .text _ => c.stored .numeric
      | c => c)) (exact 0)

def toFloat : Total → Float
  | exact n => Float.ofInt n
  | real s _ => s.total

end Total

/-- The sum: an integer if all numbers are integers. -/
def sum (cells : List Cell) : Except EngineFault Cell :=
  if cells.isEmpty then .ok .null
  else
    match Total.of cells with
    | .exact n => .ok (Cell.ofInt n)
    | .real _ true => .error .integerOverflow
    | .real s false => .ok (Cell.ofFloat s.total)

/-- The extreme cell: the first that stands so to all others. -/
def extreme (wanted : Ordering) (collation : Collation) (cells : List Cell) : Cell :=
  match cells with
  | [] => .null
  | c :: r => r.foldl (fun best x => if Cell.order collation x best == wanted then x else best) c

def unrepeated (collation : Collation) (cells : List Cell) : List Cell :=
  (cells.foldl (fun kept c =>
    if kept.any fun k => Cell.same collation k c then kept else c :: kept) []).reverse

/-- The outcome over the rows; each row gives the cells of the arguments. -/
def outcome (a : Aggregate) (rows : List (List Cell)) : Except EngineFault Cell :=
  if a.arguments.isEmpty then .ok (Cell.ofInt rows.length)
  else
    let firsts := (rows.map fun r => r.head?.getD .null).filter fun c => !c.isNull
    let cells := if a.distinct then unrepeated a.collation firsts else firsts
    match a.name with
    | "count" => .ok (Cell.ofInt cells.length)
    | "sum" => sum cells
    | "total" => .ok (Cell.ofFloat (Total.of cells).toFloat)
    | "avg" =>
      .ok (if cells.isEmpty then .null
        else Cell.ofFloat ((Total.of cells).toFloat / Float.ofNat cells.length))
    | "max" => .ok (extreme .gt a.collation cells)
    | "min" => .ok (extreme .lt a.collation cells)
    | _ =>
      let separator := ((rows.head?.bind fun r => r[1]?).map Cell.textForm).getD ","
      .ok (if cells.isEmpty then .null
        else .text (separator.intercalate (cells.map Cell.textForm)))

end RecordMapper.Aggregate
