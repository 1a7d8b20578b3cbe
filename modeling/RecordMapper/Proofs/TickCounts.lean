import RecordMapper.Proofs.StoredTimes

/-!
# Counts of ticks

Which counts of ticks are read and written back, and which times have one.

1. `Tick.count_eq_none`: a count that overflows at one step has no result that fits, since the
   seconds and the part have one sign. `Tick.ofInterval_eq`: so an interval has ticks exactly when
   the ticks of all of it fit.
2. `Tick.intervals_correspond`: every count of ticks is an interval, which has this count.
3. `Tick.ofTimestamp_of_toTimestamp`: a timestamp counts its seconds down and its part up, so
   the count of the seconds may overflow where the ticks fit. That is so for the ticks of one
   second, from `Tick.firstRead` to `Tick.firstWritten`; all other timestamps that are read
   are written back.
-/

namespace RecordMapper

namespace Interval

/-- The longest interval: as many milliseconds as fit in sixty-four bits. -/
def longest : Int := 9223372036854775807 * 1000000

/-- The intervals that can be made. -/
def Supported (d : Interval) : Prop := d.nanoseconds.natAbs ≤ longest

instance (d : Interval) : Decidable d.Supported := by unfold Supported; infer_instance

/-- The interval, when it can be made. -/
def supported? (nanoseconds : Int) : Option Interval :=
  if Supported ⟨nanoseconds⟩ then some ⟨nanoseconds⟩ else none

theorem supported?_eq_some {nanoseconds : Int} (h : Supported ⟨nanoseconds⟩) :
    supported? nanoseconds = some ⟨nanoseconds⟩ := if_pos h

end Interval

namespace Tick

theorem checked_of_fits {i : Int} (h : FitsInt64 i) : checked i = some i :=
  checked_eq_some.mpr ⟨h, rfl⟩

theorem checked_eq_none {i : Int} (h : ¬FitsInt64 i) : checked i = none := if_neg h

/-! ## Intervals -/

theorem count_of_fits {seconds part : Int} (hseconds : FitsInt64 (seconds * perSecond))
    (h : FitsInt64 (seconds * perSecond + part)) :
    count seconds part = some (seconds * perSecond + part) := by
  unfold count
  rw [checked_of_fits hseconds]
  exact checked_of_fits h

theorem count_eq_none {seconds part : Int} (h : ¬FitsInt64 (seconds * perSecond + part)) :
    count seconds part = none :=
  Option.eq_none_iff_forall_ne_some.mpr fun _ hn => h ((count_eq_some hn).1 ▸ (count_eq_some hn).2)

theorem seconds_between_of_nonneg {x : Int} (h : 0 ≤ x) :
    0 ≤ x.tdiv 1000000000 * 10000000 ∧ x.tdiv 1000000000 * 10000000 ≤ x.tdiv 100 := by
  rw [Int.tdiv_eq_ediv_of_nonneg h, Int.tdiv_eq_ediv_of_nonneg h]
  omega

theorem seconds_between (x : Int) :
    0 ≤ x.tdiv 1000000000 * 10000000 ∧ x.tdiv 1000000000 * 10000000 ≤ x.tdiv 100 ∨
      x.tdiv 100 ≤ x.tdiv 1000000000 * 10000000 ∧ x.tdiv 1000000000 * 10000000 ≤ 0 := by
  by_cases h : 0 ≤ x
  · exact .inl (seconds_between_of_nonneg h)
  · have hneg := seconds_between_of_nonneg (x := -x) (by omega)
    simp only [Int.neg_tdiv] at hneg
    omega

theorem seconds_fit {d : Interval} (h : FitsInt64 (d.nanoseconds.tdiv nanosPerTick)) :
    FitsInt64 (d.wholeSeconds * perSecond) := by
  have hbetween := seconds_between d.nanoseconds
  simp only [FitsInt64, minInt64, maxInt64, perSecond, nanosPerTick, Interval.wholeSeconds] at *
  omega

/-- An interval has the ticks counted toward zero when they fit, and otherwise none. -/
theorem ofInterval_eq (d : Interval) :
    ofInterval d =
      if FitsInt64 (d.nanoseconds.tdiv nanosPerTick)
      then .ok (Int64.ofInt (d.nanoseconds.tdiv nanosPerTick))
      else .error (tooFar d.text) := by
  have hsum : d.wholeSeconds * perSecond + d.subsecond.tdiv nanosPerTick =
      d.nanoseconds.tdiv nanosPerTick := tdiv_of_seconds d.nanoseconds
  unfold ofInterval
  by_cases hfits : FitsInt64 (d.nanoseconds.tdiv nanosPerTick)
  · rw [count_of_fits (seconds_fit hfits) (hsum ▸ hfits), hsum, if_pos hfits]
  · rw [count_eq_none (hsum ▸ hfits), if_neg hfits]

/-- The steps in which an interval is made of ticks, each checked. -/
def interval? (n : Int64) : Option Interval := do
  let seconds ← checked (n.toInt / perSecond)
  let whole ← Interval.supported? (seconds * 1000000000)
  let nanoseconds ← checked (n.toInt % perSecond * nanosPerTick)
  let part ← Interval.supported? nanoseconds
  Interval.supported? (whole.nanoseconds + part.nanoseconds)

theorem interval?_eq (n : Int64) : interval? n = some (toInterval n) := by
  have hn := fitsInt64_toInt n
  have hseconds : FitsInt64 (n.toInt / perSecond) := by
    simp only [FitsInt64, minInt64, maxInt64, perSecond] at *
    omega
  have hwhole : Interval.Supported ⟨n.toInt / perSecond * 1000000000⟩ := by
    simp only [Interval.Supported, Interval.longest, FitsInt64, minInt64, maxInt64, perSecond] at *
    omega
  have hpart : FitsInt64 (n.toInt % perSecond * nanosPerTick) := by
    simp only [FitsInt64, minInt64, maxInt64, perSecond, nanosPerTick] at *
    omega
  have hrest : Interval.Supported ⟨n.toInt % perSecond * nanosPerTick⟩ := by
    simp only [Interval.Supported, Interval.longest, perSecond, nanosPerTick]
    omega
  have hall : Interval.Supported (toInterval n) := by
    simp only [Interval.Supported, toInterval, Interval.longest, FitsInt64, minInt64, maxInt64,
      perSecond, nanosPerTick] at *
    omega
  unfold interval?
  rw [checked_of_fits hseconds, Option.bind_eq_bind, Option.bind_some,
    Interval.supported?_eq_some hwhole, checked_of_fits hpart]
  simp only [Option.bind_eq_bind, Option.bind_some, Interval.supported?_eq_some hrest]
  exact Interval.supported?_eq_some hall

theorem toInterval_nanoseconds (n : Int64) :
    (toInterval n).nanoseconds = n.toInt * nanosPerTick := by
  have hsplit : n.toInt / perSecond * 1000000000 + n.toInt % perSecond * nanosPerTick =
      n.toInt * nanosPerTick := by
    unfold perSecond nanosPerTick
    omega
  exact hsplit

/-- Every count of ticks is made an interval without overflow and counted again as itself; an
interval has the exact count toward zero where that fits, and is refused where it does not. -/
theorem intervals_correspond :
    (∀ n : Int64, interval? n = some (toInterval n) ∧ ofInterval (toInterval n) = .ok n) ∧
      ∀ d : Interval, ofInterval d =
        if FitsInt64 (d.nanoseconds.tdiv nanosPerTick)
        then .ok (Int64.ofInt (d.nanoseconds.tdiv nanosPerTick))
        else .error (tooFar d.text) := by
  refine ⟨fun n => ⟨interval?_eq n, ?_⟩, ofInterval_eq⟩
  have hback : (toInterval n).nanoseconds.tdiv nanosPerTick = n.toInt := by
    rw [toInterval_nanoseconds]
    exact Int.mul_tdiv_cancel _ (by decide)
  rw [ofInterval_eq, hback, if_pos (fitsInt64_toInt n), Int64.ofInt_toInt]

/-! ## Timestamps -/

/-- The first tick whose count from 1970 fits. -/
def firstRead : Int := -8602016068854775808

/-- The first tick of the first second whose start, counted from 1970, fits. -/
def firstWritten : Int := -8602016068850000000

/-- What a tick is read as: the second counted down, and the part counted up from it. -/
theorem of_toTimestamp {n : Int64} {t : Timestamp} (h : toTimestamp n = .ok t) :
    FitsInt64 (n.toInt - epoch) ∧ t.seconds = (n.toInt - epoch) / perSecond ∧
      (t.nanos : Int) = (n.toInt - epoch) % perSecond * nanosPerTick := by
  unfold toTimestamp at h
  split at h
  · cases h
  · rename_i relative hrelative
    obtain ⟨hfits, rfl⟩ := checked_eq_some.mp hrelative
    dsimp only at h
    split at h
    · cases h
      refine ⟨hfits, rfl, Int.toNat_of_nonneg ?_⟩
      unfold perSecond nanosPerTick
      omega
    · cases h

/-- Every tick whose count from 1970 fits is read: all of them lie in the supported years. -/
theorem toTimestamp_isOk_iff (n : Int64) : (∃ t, toTimestamp n = .ok t) ↔ firstRead ≤ n.toInt := by
  have hn := fitsInt64_toInt n
  have hrelative : FitsInt64 (n.toInt - epoch) ↔ firstRead ≤ n.toInt := by
    simp only [FitsInt64, minInt64, maxInt64, epoch, firstRead] at *
    omega
  refine ⟨?_, fun hfirst => ?_⟩
  · rintro ⟨t, ht⟩
    exact hrelative.mp (of_toTimestamp ht).1
  have hfits := hrelative.mpr hfirst
  have hsupported : Timestamp.Supported
      ⟨(n.toInt - epoch) / perSecond, ((n.toInt - epoch) % perSecond * nanosPerTick).toNat⟩ := by
    have hlow : Timestamp.firstSecond ≤ -922337203686 := by decide
    have hhigh : 922337203686 ≤ Timestamp.lastSecond := by decide
    simp only [Timestamp.Supported, FitsInt64, minInt64, maxInt64, perSecond, nanosPerTick] at *
    omega
  unfold toTimestamp
  rw [checked_of_fits hfits]
  exact ⟨_, if_pos hsupported⟩

/-- A tick that is read as a timestamp is written back, unless it lies before the first second that
starts at a count that fits. -/
theorem ofTimestamp_of_toTimestamp {n : Int64} {t : Timestamp} (h : toTimestamp n = .ok t) :
    ofTimestamp t = if firstWritten ≤ n.toInt then .ok n else .error (tooFar t.text) := by
  obtain ⟨hfits, ht, hpart⟩ := of_toTimestamp h
  have hsum : t.seconds * perSecond + (t.nanos : Int) / nanosPerTick = n.toInt - epoch := by
    unfold perSecond nanosPerTick at *
    omega
  have hseconds : FitsInt64 (t.seconds * perSecond) ↔ firstWritten ≤ n.toInt := by
    simp only [FitsInt64, minInt64, maxInt64, perSecond, epoch, firstWritten] at *
    omega
  unfold ofTimestamp
  by_cases hwritten : firstWritten ≤ n.toInt
  · have hback : FitsInt64 (n.toInt - epoch + epoch) := Int.sub_add_cancel _ _ ▸ fitsInt64_toInt n
    rw [count_of_fits (hseconds.mpr hwritten) (hsum ▸ hfits), hsum, Option.bind_eq_bind,
      Option.bind_some, checked_of_fits hback, Int.sub_add_cancel, if_pos hwritten]
    dsimp only
    rw [Int64.ofInt_toInt]
  · have hnone : count t.seconds ((t.nanos : Int) / nanosPerTick) = none := by
      unfold count
      rw [checked_eq_none fun hs => hwritten (hseconds.mp hs)]
      rfl
    rw [hnone, if_neg hwritten]
    rfl

theorem ofTimestamp_of_toTimestamp_first :
    toTimestamp (Int64.ofInt firstWritten) = .ok ⟨-922337203685, 0⟩ ∧
      ofTimestamp ⟨-922337203685, 0⟩ = .ok (Int64.ofInt firstWritten) := by
  have hread : toTimestamp (Int64.ofInt firstWritten) = .ok ⟨-922337203685, 0⟩ := by decide
  refine ⟨hread, ?_⟩
  rw [ofTimestamp_of_toTimestamp hread, if_pos (by decide)]

/-- The first tick that is read is not written back. -/
theorem not_always_written_back :
    ¬∀ n t, toTimestamp n = .ok t → ofTimestamp t = .ok n := by
  intro hall
  have hback := hall (-8602016068854775808) ⟨-922337203686, 522419200⟩ (by decide)
  exact absurd hback (by decide)

end Tick
end RecordMapper
