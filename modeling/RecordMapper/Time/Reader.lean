import RecordMapper.Time.Timestamp
import RecordMapper.Number.Numeral
import RecordMapper.Text.Blank

/-!
# Reading dates and times

A stored text is a date and a clock joined by `T` or by blanks, or a date alone. Blanks may stand
before every number; the date must exist and lie in the supported years.
-/

namespace RecordMapper

namespace Timestamp

/-- Reads a number of at most `width` digits after blanks. -/
def number (width : Nat) (cs : List Char) : Option (Nat × List Char) :=
  let r := dropBlanks cs
  let ds := (r.take width).takeWhile isDigit
  if ds.isEmpty then none else some (digitsValue ds, r.drop ds.length)

/-- Reads a year: four digits at most, or a sign and any number of digits. -/
def yearAt (cs : List Char) : Option (Int × List Char) :=
  match dropBlanks cs with
  | '-' :: r =>
    let ds := r.takeWhile isDigit
    if ds.isEmpty then none else some (-(digitsValue ds : Int), r.drop ds.length)
  | '+' :: r =>
    let ds := r.takeWhile isDigit
    if ds.isEmpty then none else some ((digitsValue ds : Int), r.drop ds.length)
  | r => (number 4 r).map fun (n, rest) => ((n : Int), rest)

def exactly (c : Char) : List Char → Option (List Char)
  | d :: r => if d = c then some r else none
  | [] => none

def dateAt (cs : List Char) : Option (Int × List Char) := do
  let (year, cs) ← yearAt cs
  let cs ← exactly '-' cs
  let (month, cs) ← number 2 cs
  let cs ← exactly '-' cs
  let (day, cs) ← number 2 cs
  let date : CivilDate := ⟨year, month, day⟩
  if Calendar.isDate date ∧ Calendar.minYear ≤ year ∧ year ≤ Calendar.maxYear then
    some (Calendar.dayNumber date, cs)
  else none

/-- Reads a fraction of a second: nothing, or a point and digits, of which nine count. -/
def fractionAt : List Char → Option (Nat × List Char)
  | '.' :: r =>
    let ds := r.takeWhile isDigit
    if ds.isEmpty then none
    else
      let kept := ds.take 9
      some (digitsValue kept * tenTo (9 - kept.length), r.drop ds.length)
  | r => some (0, r)

/-- Reads a clock as seconds and nanoseconds; second sixty is the leap second. -/
def clockAt (cs : List Char) : Option (Nat × Nat × List Char) := do
  let (hour, cs) ← number 2 cs
  let cs ← exactly ':' cs
  let (minute, cs) ← number 2 cs
  let cs ← exactly ':' cs
  let (second, cs) ← number 2 cs
  let (nanos, cs) ← fractionAt cs
  if 24 ≤ hour ∨ 60 ≤ minute ∨ 61 ≤ second then none
  else if second = 60 then some (hour * 3600 + minute * 60 + 59, 1000000000 + nanos, cs)
  else some (hour * 3600 + minute * 60 + second, nanos, cs)

/-- Reads date and clock with `between` reading what separates them; nothing may follow. -/
def fullAt (between : List Char → Option (List Char)) (cs : List Char) : Option Timestamp := do
  let (day, cs) ← dateAt cs
  let cs ← between cs
  let (second, nanos, cs) ← clockAt cs
  if cs.isEmpty then some ⟨day * 86400 + second, nanos⟩ else none

/-- Reads a date alone, which stands for its first second. -/
def dayAt (cs : List Char) : Option Timestamp := do
  let (day, cs) ← dateAt cs
  if cs.isEmpty then some ⟨day * 86400, 0⟩ else none

/-- Reads a text without blanks at its ends. -/
def read? (text : String) : Option Timestamp :=
  let cs := text.toList
  (fullAt (exactly 'T') cs).or <| (fullAt (fun r => some (dropBlanks r)) cs).or (dayAt cs)

end Timestamp

end RecordMapper
