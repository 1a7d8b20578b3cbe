import RecordMapper.Number.Binary

/-!
# Reading decimal numerals

A numeral is an optional sign, digits with an optional point, and an optional exponent.
`Numeral.read` gives the numeral at the head of a list of characters and what follows it;
`Numeral.toFloat` is the float nearest to it.
-/

namespace RecordMapper

def isDigit (c : Char) : Bool := decide ('0' ≤ c) && decide (c ≤ '9')

def digitValue (c : Char) : Nat := c.toNat - '0'.toNat

/-- The number written by a list of digits. -/
def digitsValue (cs : List Char) : Nat := cs.foldl (fun n c => 10 * n + digitValue c) 0

theorem digitsValue_append_singleton (cs : List Char) (c : Char) :
    digitsValue (cs ++ [c]) = 10 * digitsValue cs + digitValue c := by
  simp [digitsValue, List.foldl_append]

/-- A decimal numeral `± digits * 10 ^ exponent`, with whether it has a point or an exponent. -/
structure Numeral where
  negative : Bool
  digits : Nat
  exponent : Int
  /-- Written as an integer: no point and no exponent. -/
  integral : Bool
  deriving DecidableEq, Repr

namespace Numeral

def sign : List Char → Bool × List Char
  | '-' :: r => (true, r)
  | '+' :: r => (false, r)
  | r => (false, r)

/-- The exponent part `e[±]digits` at the head, if there is one. -/
def exponentPart : List Char → Option (Int × List Char)
  | c :: r =>
    if c = 'e' ∨ c = 'E' then
      let (negative, r) := sign r
      let ds := r.takeWhile isDigit
      if ds.isEmpty then none
      else
        let n : Int := digitsValue ds
        some (if negative then -n else n, r.dropWhile isDigit)
    else none
  | [] => none

/-- The longest numeral at the head and the rest. -/
def read (cs : List Char) : Option (Numeral × List Char) :=
  let (negative, r) := sign cs
  let whole := r.takeWhile isDigit
  let r := r.dropWhile isDigit
  let (point, fraction, r) : Bool × List Char × List Char :=
    match r with
    | '.' :: r' => (true, r'.takeWhile isDigit, r'.dropWhile isDigit)
    | _ => (false, [], r)
  if whole.isEmpty && fraction.isEmpty then none
  else
    let digits := digitsValue (whole ++ fraction)
    let (power, exponent, r) : Bool × Int × List Char :=
      match exponentPart r with
      | some (x, r') => (true, x, r')
      | none => (false, 0, r)
    some ({ negative, digits, exponent := exponent - fraction.length
            integral := !point && !power }, r)

/-- The nearest float. Exponents beyond the range of floats are settled by the number's size. -/
def toFloat (n : Numeral) : Float :=
  let size : Float :=
    if n.digits = 0 then 0.0
    else
      let leading : Int := (toString n.digits).length + n.exponent
      if 400 < leading then Float.ofBits 0x7ff0000000000000
      else if leading < -400 then 0.0
      else Float.ofScientific n.digits (decide (n.exponent < 0)) n.exponent.natAbs
  if n.negative then -size else size

end Numeral

/-- Reads a float: a numeral, or `inf`, `infinity` or `nan` in any case, with an optional sign. -/
def readFloat? (text : String) : Option Float :=
  let cs := text.toList
  match Numeral.read cs with
  | some (n, []) => some n.toFloat
  | some _ => none
  | none =>
    let (negative, r) := Numeral.sign cs
    let word := String.ofList (r.map Char.toLower)
    if word = "inf" ∨ word = "infinity" then
      some (Float.ofBits (if negative then 0xfff0000000000000 else 0x7ff0000000000000))
    else if word = "nan" then some (Float.ofBits 0x7ff8000000000000)
    else none

/-- Reads an integer: an optional sign and digits. -/
def readInt? (text : String) : Option Int :=
  let (negative, ds) := Numeral.sign text.toList
  if ds.isEmpty || !ds.all isDigit then none
  else
    let n : Int := digitsValue ds
    some (if negative then -n else n)

def readInt64? (text : String) : Option Int64 := (readInt? text).bind int64?

end RecordMapper
