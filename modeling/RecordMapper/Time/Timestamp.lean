import RecordMapper.Time.Calendar
import RecordMapper.Number.Shortest

/-!
# Points in time

A timestamp is a count of seconds from 1970-01-01T00:00:00 and nanoseconds; from `10⁹` nanoseconds
on it lies in the leap second after that second. An instant with an offset is a timestamp in
universal time, shown at the offset.
-/

namespace RecordMapper

/-- Seconds since 1970-01-01T00:00:00 and nanoseconds. -/
structure Timestamp where
  seconds : Int
  nanos : Nat
  deriving DecidableEq, Repr, Inhabited

/-- A timestamp in universal time and an offset in seconds east. -/
structure OffsetTimestamp where
  utc : Timestamp
  offset : Int
  deriving DecidableEq, Repr, Inhabited

namespace Timestamp

def epoch : Timestamp := ⟨0, 0⟩

/-- The first second of the supported years. -/
def firstSecond : Int := Calendar.firstDay * 86400

/-- The last second of the supported years. -/
def lastSecond : Int := Calendar.lastDay * 86400 + 86399

/-- The timestamps of the supported years. -/
def Supported (t : Timestamp) : Prop :=
  firstSecond ≤ t.seconds ∧ t.seconds ≤ lastSecond ∧ t.nanos < 1000000000

instance (t : Timestamp) : Decidable (Supported t) := by unfold Supported; infer_instance

def two (n : Nat) : String := if n < 10 then "0" ++ toString n else toString n

def digitsOf (width n : Nat) : String :=
  let ds := toString n
  zeros (width - ds.length) ++ ds

/-- Four digits for the years 0 to 9999; others have a sign and at least four digits. -/
def yearText (y : Int) : String :=
  if 0 ≤ y ∧ y ≤ 9999 then digitsOf 4 y.toNat
  else (if y < 0 then "-" else "+") ++ digitsOf 4 y.natAbs

def dateText (d : CivilDate) : String :=
  yearText d.year ++ "-" ++ two d.month ++ "-" ++ two d.day

def date (t : Timestamp) : CivilDate := Calendar.civilDate (t.seconds / 86400)

/-- Hours, minutes and seconds; a leap second counts as second sixty. -/
def clockText (t : Timestamp) : String :=
  let s := (t.seconds % 86400).toNat
  let second := s % 60 + (if t.nanos < 1000000000 then 0 else 1)
  two (s / 3600) ++ ":" ++ two (s / 60 % 60) ++ ":" ++ two second

/-- The part of a second in nanoseconds. -/
def fraction (t : Timestamp) : Nat := t.nanos % 1000000000

/-- A point and the fewest of three, six or nine digits that are exact, or nothing for zero. -/
def fractionText (t : Timestamp) : String :=
  let n := t.fraction
  if n = 0 then ""
  else if n % 1000000 = 0 then "." ++ digitsOf 3 (n / 1000000)
  else if n % 1000 = 0 then "." ++ digitsOf 6 (n / 1000)
  else "." ++ digitsOf 9 n

/-- Date and clock with something between them. -/
def textWith (separator : String) (t : Timestamp) : String :=
  dateText t.date ++ separator ++ t.clockText ++ t.fractionText

def text (t : Timestamp) : String := t.textWith " "

/-- The stored text of a timestamp: nine digits of a second, so that texts sort as times do. -/
def storedText (t : Timestamp) : String :=
  dateText t.date ++ "T" ++ t.clockText ++ "." ++ digitsOf 9 t.fraction

end Timestamp

namespace OffsetTimestamp

def clock (t : OffsetTimestamp) : Timestamp := ⟨t.utc.seconds + t.offset, t.utc.nanos⟩

/-- The offset in hours and minutes, rounded to the nearest minute. -/
def offsetText (offset : Int) : String :=
  let minutes := (offset.natAbs + 30) / 60
  (if offset < 0 then "-" else "+") ++ Timestamp.two (minutes / 60) ++ ":"
    ++ Timestamp.two (minutes % 60)

/-- The offset with its seconds where it has some. -/
def exactOffsetText (offset : Int) : String :=
  let s := offset.natAbs
  (if offset < 0 then "-" else "+") ++ Timestamp.two (s / 3600) ++ ":"
    ++ Timestamp.two (s / 60 % 60) ++ (if s % 60 = 0 then "" else ":" ++ Timestamp.two (s % 60))

def text (t : OffsetTimestamp) : String := t.clock.textWith "T" ++ offsetText t.offset

end OffsetTimestamp

/-! ## Intervals -/

structure Interval where
  nanoseconds : Int
  deriving DecidableEq, Repr, Inhabited

namespace Interval

/-- Whole seconds, the fraction cut off toward zero. -/
def wholeSeconds (d : Interval) : Int := d.nanoseconds.tdiv 1000000000

/-- The rest below a second, with the sign of the interval. -/
def subsecond (d : Interval) : Int := d.nanoseconds.tmod 1000000000

/-- The digits of a fraction of a second without trailing zeros. -/
def fractionDigits (n : Nat) : String :=
  let ds := (Timestamp.digitsOf 9 n).toList
  String.ofList (ds.reverse.dropWhile (· == '0')).reverse

/-- The length in seconds, a minus sign in front of all. -/
def text (d : Interval) : String :=
  let size := d.nanoseconds.natAbs
  if size = 0 then "P0D"
  else
    let fraction := size % 1000000000
    (if d.nanoseconds < 0 then "-" else "") ++ "PT" ++ toString (size / 1000000000)
      ++ (if fraction = 0 then "" else "." ++ fractionDigits fraction) ++ "S"

end Interval

end RecordMapper
