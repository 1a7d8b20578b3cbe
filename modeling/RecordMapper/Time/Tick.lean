import RecordMapper.Fault
import RecordMapper.Time.Timestamp

/-!
# Ticks

A tick is a hundred nanoseconds. Timestamps are stored as ticks since 0001-01-01T00:00:00 and
intervals as ticks, both as sixty-four bit integers; every step of the count has to fit.
-/

namespace RecordMapper

namespace Tick

def perSecond : Int := 10000000

def nanosPerTick : Int := 100

/-- The tick of 1970-01-01T00:00:00. -/
def epoch : Int := 621355968000000000

/-- The integer, when it fits in sixty-four bits. -/
def checked (i : Int) : Option Int := if FitsInt64 i then some i else none

/-- The ticks of seconds and a part of a second, checked at each step. -/
def count (seconds part : Int) : Option Int := do
  let t ← checked (seconds * perSecond)
  checked (t + part)

def tooFar (shown : String) : TypeFault := .outOfRange shown "tick storage"

/-- The tick in which a timestamp lies. -/
def ofTimestamp (t : Timestamp) : Except TypeFault Int64 :=
  match (do checked ((← count t.seconds ((t.nanos : Int) / nanosPerTick)) + epoch)) with
  | some n => .ok (Int64.ofInt n)
  | none => .error (tooFar t.text)

/-- The timestamp at which a tick starts, if its year is supported. -/
def toTimestamp (n : Int64) : Except TypeFault Timestamp :=
  match checked (n.toInt - epoch) with
  | none => .error (tooFar (toString n.toInt))
  | some relative =>
    let t : Timestamp :=
      ⟨relative / perSecond, (relative % perSecond * nanosPerTick).toNat⟩
    if t.Supported then .ok t else .error (tooFar (toString n.toInt))

/-- The whole ticks of an interval, counted toward zero. -/
def ofInterval (d : Interval) : Except TypeFault Int64 :=
  match count d.wholeSeconds (d.subsecond.tdiv nanosPerTick) with
  | some n => .ok (Int64.ofInt n)
  | none => .error (tooFar d.text)

def toInterval (n : Int64) : Interval :=
  ⟨n.toInt / perSecond * 1000000000 + n.toInt % perSecond * nanosPerTick⟩

end Tick

end RecordMapper
