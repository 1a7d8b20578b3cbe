import RecordMapper.Engine.Function

/-!
# Formulas

An expression whose names are resolved: columns are places in a row, and every comparison knows its
affinity and collation. Logic is three-valued: null is neither true nor false, `and` and `or` are
the least and the greatest of false < null < true.
-/

namespace RecordMapper

inductive Comparison
  | eq
  | ne
  | lt
  | le
  | gt
  | ge
  deriving DecidableEq, Repr, Inhabited

inductive Arithmetic
  | add
  | sub
  | mul
  | div
  | rem
  | bitAnd
  | bitOr
  | shiftLeft
  | shiftRight
  deriving DecidableEq, Repr, Inhabited

/-- How two operands are brought together for a comparison. -/
structure Matching where
  affinity : Option Affinity
  collation : Collation
  deriving DecidableEq, Repr, Inhabited

inductive Formula
  | constant (c : Cell)
  | parameter (index : Nat)
  | field (i : Nat)
  | rowid
  /-- The outcome of an aggregate over all rows. -/
  | aggregate (i : Nat)
  | minus (a : Formula)
  | not (a : Formula)
  | complement (a : Formula)
  | and (a b : Formula)
  | or (a b : Formula)
  | compare (op : Comparison) (m : Matching) (a b : Formula)
  /-- Comparison that takes nulls as equal. -/
  | is (negated : Bool) (m : Matching) (a b : Formula)
  | arithmetic (op : Arithmetic) (a b : Formula)
  | concat (a b : Formula)
  | like (negated : Bool) (a pattern : Formula) (escape : Option Formula)
  | isNull (negated : Bool) (a : Formula)
  | inList (negated : Bool) (m : Matching) (a : Formula) (items : List Formula)
  | call (name : String) (collation : Collation) (arguments : List Formula)
  | cast (affinity : Affinity) (a : Formula)
  /-- The first result whose test is true, or else the last. -/
  | cases (tests results : List Formula) (otherwise : Formula)

instance : Inhabited Formula := ⟨.constant .null⟩

/-- What a formula is evaluated in. -/
structure Scope where
  parameters : List Cell := []
  fields : List Cell := []
  rowid : Cell := .null
  aggregates : List Cell := []
  /-- The connection's counters: rows changed last, rows changed in all, last row inserted. -/
  changes : Int := 0
  totalChanges : Int := 0
  lastRowid : Int := 0
  deriving Inhabited

namespace Comparison

def holds : Comparison → Ordering → Bool
  | eq, o => o == .eq
  | ne, o => o != .eq
  | lt, o => o == .lt
  | le, o => o != .gt
  | gt, o => o == .gt
  | ge, o => o != .lt

/-- The comparison of two cells; null with anything is null. -/
def apply (op : Comparison) (m : Matching) (x y : Cell) : Cell :=
  if x.isNull || y.isNull then .null
  else
    let (x, y) := Cell.comparable m.affinity x y
    Cell.ofBool (op.holds (Cell.order m.collation x y))

end Comparison

namespace Arithmetic

/-- Shifts by a signed amount: left when positive. -/
def shift (x : Int64) (amount : Int) : Int64 :=
  if amount ≥ 64 then 0
  else if 0 ≤ amount then Int64.ofInt (x.toInt * (twoTo amount.toNat : Nat))
  else if amount ≤ -64 then (if x < 0 then -1 else 0)
  else Int64.ofInt (x.toInt / (twoTo (-amount).toNat : Nat))

/-- Integer arithmetic; a result that does not fit is computed in floating point instead. -/
def onIntegers (op : Arithmetic) (i j : Int) : Option Int :=
  match op with
  | add => some (i + j)
  | sub => some (i - j)
  | mul => some (i * j)
  | div => if j = 0 then none else some (i.tdiv j)
  | rem => if j = 0 then none else some (i.tmod j)
  | _ => none

def onFloats (op : Arithmetic) (x y : Float) : Cell :=
  match op with
  | add => Cell.ofFloat (x + y)
  | sub => Cell.ofFloat (x - y)
  | mul => Cell.ofFloat (x * y)
  | div => if y == 0 then .null else Cell.ofFloat (x / y)
  | _ => .null

/-- The outcome for two cells; null with anything is null, and so is a division by zero. -/
def apply (op : Arithmetic) (x y : Cell) : Cell :=
  if x.isNull || y.isNull then .null
  else
    match op with
    | bitAnd => .integer (x.toInt64 &&& y.toInt64)
    | bitOr => .integer (x.toInt64 ||| y.toInt64)
    | shiftLeft => .integer (shift x.toInt64 y.toInt64.toInt)
    | shiftRight => .integer (shift x.toInt64 (-y.toInt64.toInt))
    | rem =>
      let r := onIntegers rem x.toInt64.toInt y.toInt64.toInt
      match x.number, y.number, r with
      | _, _, none => .null
      | .integer _, .integer _, some r => Cell.ofInt r
      | _, _, some r => .real (Float.ofInt r)
    | op =>
      match x.number, y.number with
      | .integer i, .integer j =>
        if op = div ∧ j = 0 then .null
        else
          match (onIntegers op i.toInt j.toInt).bind int64? with
          | some n => .integer n
          | none => onFloats op (Float.ofInt i.toInt) (Float.ofInt j.toInt)
      | x, y => onFloats op x.toFloat y.toFloat

end Arithmetic

namespace Formula

def both : Option Bool → Option Bool → Option Bool
  | some false, _ | _, some false => some false
  | some true, some true => some true
  | _, _ => none

def either : Option Bool → Option Bool → Option Bool
  | some true, _ | _, some true => some true
  | some false, some false => some false
  | _, _ => none

def negated (c : Cell) : Cell :=
  match c.number with
  | .integer i => Cell.ofInt (-i.toInt)
  | .real x => .real (-x)
  | _ => .null

/-- Two texts joined; null with anything is null. -/
def joined (x y : Cell) : Cell :=
  if x.isNull || y.isNull then .null
  else
    match x, y with
    | .malformed _, _ | .blob _, _ | _, .malformed _ | _, .blob _ =>
      Cell.ofTextBytes (x.textBytes ++ y.textBytes)
    | x, y => .text (x.textForm ++ y.textForm)

def maxPattern : Nat := 50000

/-- A pattern match; null with anything is null. -/
def matched (negated : Bool) (x pattern : Cell) (escape : Option Cell) :
    Except EngineFault Cell :=
  match Function.text? pattern, Function.text? x with
  | some p, some s =>
    if maxPattern < p.utf8ByteSize then .error .patternTooComplex
    else
      match escape with
      | some .null => .ok .null
      | _ =>
        let sign := (escape.map Cell.textForm).bind fun e => e.toList.head?
        .ok (Cell.ofBool (Pattern.likes (untilZero p) (untilZero s) sign != negated))
  | _, _ => .ok .null

/-- Membership of a cell in a list: null when it is null or might be one of the nulls. -/
def member (m : Matching) (x : Cell) (items : List Cell) : Option Bool :=
  if items.isEmpty then some false
  else if x.isNull then none
  else
    let affinity := m.affinity.getD .blob
    let x := x.stored affinity
    let items := items.map (Cell.stored affinity)
    if items.any fun y => !y.isNull && Cell.same m.collation x y then some true
    else if items.any Cell.isNull then none
    else some false

def counter? (s : Scope) (name : String) : Option Cell :=
  match foldCase name with
  | "changes" => some (Cell.ofInt s.changes)
  | "total_changes" => some (Cell.ofInt s.totalChanges)
  | "last_insert_rowid" => some (Cell.ofInt s.lastRowid)
  | _ => none

mutual

def eval (s : Scope) : Formula → Except EngineFault Cell
  | constant c => .ok c
  | parameter i => .ok (s.parameters[i - 1]?.getD .null)
  | field i => .ok (s.fields[i]?.getD .null)
  | rowid => .ok s.rowid
  | aggregate i => .ok (s.aggregates[i]?.getD .null)
  | minus a => do return negated (← a.eval s)
  | not a => do return Cell.ofTruth ((← a.eval s).truth.map (!·))
  | complement a => do
    let c ← a.eval s
    return if c.isNull then .null else .integer (~~~ c.toInt64)
  | and a b => do
    let x := (← a.eval s).truth
    if x = some false then return Cell.ofTruth x
    return Cell.ofTruth (both x (← b.eval s).truth)
  | or a b => do
    let x := (← a.eval s).truth
    if x = some true then return Cell.ofTruth x
    return Cell.ofTruth (either x (← b.eval s).truth)
  | compare op m a b => do return op.apply m (← a.eval s) (← b.eval s)
  | is negated m a b => do
    let (x, y) := Cell.comparable m.affinity (← a.eval s) (← b.eval s)
    return Cell.ofBool (Cell.same m.collation x y != negated)
  | arithmetic op a b => do return op.apply (← a.eval s) (← b.eval s)
  | concat a b => do return joined (← a.eval s) (← b.eval s)
  | like negated a pattern none => do matched negated (← a.eval s) (← pattern.eval s) none
  | like negated a pattern (some escape) => do
    matched negated (← a.eval s) (← pattern.eval s) (some (← escape.eval s))
  | isNull negated a => do return Cell.ofBool ((← a.eval s).isNull != negated)
  | inList negated m a items => do
    let x ← a.eval s
    return Cell.ofTruth ((member m x (← evalEach s items)).map (· != negated))
  | call name collation arguments => do
    match counter? s name with
    | some c => return c
    | none => Function.apply name collation (← evalEach s arguments)
  | cast affinity a => do return (← a.eval s).cast affinity
  | cases tests results otherwise => do
    match ← firstTrue s tests with
    | some i => evalAt s results i
    | none => otherwise.eval s

def evalEach (s : Scope) : List Formula → Except EngineFault (List Cell)
  | [] => .ok []
  | f :: r => do return (← f.eval s) :: (← evalEach s r)

def firstTrue (s : Scope) : List Formula → Except EngineFault (Option Nat)
  | [] => .ok none
  | f :: r => do
    if (← f.eval s).truth = some true then return some 0
    else return (← firstTrue s r).map (· + 1)

def evalAt (s : Scope) : List Formula → Nat → Except EngineFault Cell
  | [], _ => .ok .null
  | f :: _, 0 => f.eval s
  | _ :: r, n + 1 => evalAt s r n

end

end Formula

end RecordMapper
