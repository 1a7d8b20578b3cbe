import Mathlib.Data.List.TakeWhile
import RecordMapper.Codec
import RecordMapper.Proofs.Dates
import RecordMapper.Proofs.Scanning

/-!
# Stored times

How times come back from what they are stored as.

1. `Spells` and `Timestamp.number_digitsOf`: a number in a fixed width is read back.
2. `Timestamp.dateAt_dateText`, `Timestamp.clockAt_clockText`: a date and a clock are read back.
3. `Timestamp.read_storedText`: the stored text of a timestamp is read back as the timestamp,
   whatever its year and with leap seconds.
4. `Tick.toTimestamp_of_ofTimestamp`, `Tick.toInterval_of_ofInterval`: a count of ticks is read back
   as the start of the tick.
-/

namespace RecordMapper

/-! ## Numerals and blanks -/

/-- Some digits stand for a number. -/
structure Spells (cs : List Char) (n : Nat) : Prop where
  some : cs ≠ []
  digits : ∀ c ∈ cs, isDigit c = true
  value : digitsValue cs = n

theorem not_isBlank_of_isDigit {c : Char} (h : isDigit c = true) : isBlank c = false := by
  simp only [isDigit, Bool.and_eq_true, decide_eq_true_eq, Char.le_def, UInt32.le_iff_toNat_le] at h
  have hlow : 48 ≤ c.toNat := h.1
  have hhigh : c.toNat ≤ 57 := h.2
  simp only [isBlank, Bool.or_eq_false_iff, Bool.and_eq_false_iff, decide_eq_false_iff_not,
    beq_eq_false_iff_ne]
  omega

theorem dropBlanks_of_not {c : Char} (h : isBlank c = false) (r : List Char) :
    dropBlanks (c :: r) = c :: r := by
  rw [dropBlanks, List.dropWhile_cons, h]
  rfl

/-- A text without blanks. -/
def Unspaced (text : String) : Prop := ∀ c ∈ text.toList, isBlank c = false

theorem Unspaced.of_all {text : String} (h : text.toList.all (fun c => !isBlank c) = true) :
    Unspaced text := fun c hc => by
  have := List.all_eq_true.mp h c hc
  rwa [Bool.not_eq_true'] at this

theorem Unspaced.append {s t : String} (hs : Unspaced s) (ht : Unspaced t) : Unspaced (s ++ t) := by
  intro c hc
  rw [String.toList_append] at hc
  exact (List.mem_append.mp hc).elim (hs c) (ht c)

theorem dropWhile_isBlank {cs : List Char} (h : ∀ c ∈ cs, isBlank c = false) :
    cs.dropWhile isBlank = cs := by
  cases cs with
  | nil => rfl
  | cons c r => rw [List.dropWhile_cons, h c List.mem_cons_self]; rfl

theorem Unspaced.trimmed_eq {text : String} (h : Unspaced text) : trimmed text = text := by
  unfold trimmed trimBlanks dropBlanks
  rw [dropWhile_isBlank h, dropWhile_isBlank fun c hc => h c (List.mem_reverse.mp hc),
    List.reverse_reverse, String.ofList_toList]

theorem digitsValue_zeros (k : Nat) (cs : List Char) :
    digitsValue (List.replicate k '0' ++ cs) = digitsValue cs := by
  induction k with
  | zero => rfl
  | succ k ih =>
    rw [List.replicate_succ, List.cons_append, ← ih]
    rfl

namespace Timestamp

/-! ## Numbers of a fixed width -/

theorem toList_digitsOf (width n : Nat) : (digitsOf width n).toList =
    List.replicate (width - (Nat.toDigits 10 n).length) '0' ++ Nat.toDigits 10 n := by
  rw [digitsOf, String.toList_append, zeros, String.toList_ofList, Nat.toString_eq_ofList_toDigits,
    String.toList_ofList, String.length_ofList]

theorem spells_digitsOf (width n : Nat) : Spells (digitsOf width n).toList n := by
  rw [toList_digitsOf]
  refine ⟨?_, ?_, ?_⟩
  · exact List.append_ne_nil_of_right_ne_nil _ Nat.toDigits_ne_nil
  · intro c hc
    obtain hc | hc := List.mem_append.mp hc
    · rw [List.eq_of_mem_replicate hc]
      decide
    · exact isDigit_of_mem_toDigits hc
  · rw [digitsValue_zeros, digitsValue_toDigits]

theorem length_digitsOf {width n : Nat} (hw : 0 < width) (h : n < tenTo width) :
    (digitsOf width n).toList.length = width := by
  have hle := (Nat.length_toDigits_le_iff (b := 10) (by omega) hw).mpr h
  rw [toList_digitsOf, List.length_append, List.length_replicate]
  omega

theorem two_eq (n : Nat) : two n = digitsOf 2 n := by
  have hlen : (toString n).length = (Nat.toDigits 10 n).length := by
    rw [Nat.toString_eq_ofList_toDigits, String.length_ofList]
  have hone := Nat.length_toDigits_le_iff (b := 10) (n := n) (k := 1) (by omega) (by omega)
  have hpos : 0 < (Nat.toDigits 10 n).length := Nat.length_toDigits_pos
  unfold two digitsOf
  dsimp only
  split
  · have : 2 - (toString n).length = 1 := by omega
    rw [this]
    rfl
  · have : 2 - (toString n).length = 0 := by omega
    rw [this]
    exact (String.empty_append).symm

theorem number_of_spells {width n : Nat} {cs : List Char} (h : Spells cs n) (hw : cs.length = width)
    (rest : List Char) : number width (cs ++ rest) = some (n, rest) := by
  obtain ⟨c, r, rfl⟩ := List.exists_cons_of_ne_nil h.some
  have hdrop : dropBlanks (c :: r ++ rest) = c :: r ++ rest :=
    dropBlanks_of_not (not_isBlank_of_isDigit (h.digits c List.mem_cons_self)) _
  have htake : (c :: r ++ rest).take width = c :: r := by
    rw [← hw, List.take_left]
  have hall : (c :: r).takeWhile isDigit = c :: r := List.takeWhile_eq_self_iff.mpr h.digits
  unfold number
  dsimp only
  rw [hdrop, htake, hall, List.drop_left, h.value]
  rfl

theorem number_digitsOf {width n : Nat} (hw : 0 < width) (h : n < tenTo width) (rest : List Char) :
    number width ((digitsOf width n).toList ++ rest) = some (n, rest) :=
  number_of_spells (spells_digitsOf width n) (length_digitsOf hw h) rest

/-! ## Dates and clocks -/

theorem yearAt_signed {c : Char} (hc : c = '-' ∨ c = '+') {cs rest : List Char} {n : Nat}
    (h : Spells cs n) (hr : Stops isDigit rest) :
    yearAt (c :: (cs ++ rest)) = some (if c = '-' then -(n : Int) else n, rest) := by
  have ht := takeWhile_of_stops h.digits hr
  have hempty : cs.isEmpty = false := List.isEmpty_eq_false_iff.mpr h.some
  unfold yearAt
  obtain rfl | rfl := hc
  · rw [dropBlanks_of_not (by decide), if_pos rfl]
    simp only [ht, hempty, List.drop_left, h.value, Bool.false_eq_true, if_false]
  · rw [dropBlanks_of_not (by decide), if_neg (by decide)]
    simp only [ht, hempty, List.drop_left, h.value, Bool.false_eq_true, if_false]

theorem yearAt_unsigned {cs rest : List Char} {n : Nat} (h : Spells cs n) (hw : cs.length = 4) :
    yearAt (cs ++ rest) = some ((n : Int), rest) := by
  have hnumber := number_of_spells h hw rest
  obtain ⟨c, r, rfl⟩ := List.exists_cons_of_ne_nil h.some
  have hc : isDigit c = true := h.digits c List.mem_cons_self
  unfold yearAt
  rw [List.cons_append, dropBlanks_of_not (not_isBlank_of_isDigit hc)]
  split
  · rename_i heq
    cases heq
    cases hc
  · rename_i heq
    cases heq
    cases hc
  · rw [← List.cons_append, hnumber]
    rfl

theorem yearAt_yearText (y : Int) {rest : List Char} (hr : Stops isDigit rest) :
    yearAt ((yearText y).toList ++ rest) = some (y, rest) := by
  have hs := spells_digitsOf 4 y.natAbs
  unfold yearText
  by_cases h : 0 ≤ y ∧ y ≤ 9999
  · have hlen : (digitsOf 4 y.toNat).toList.length = 4 :=
      length_digitsOf (by omega) (show y.toNat < 10000 by omega)
    rw [if_pos h, yearAt_unsigned (spells_digitsOf 4 _) hlen, Int.toNat_of_nonneg h.1]
  · rw [if_neg h, String.toList_append]
    by_cases hneg : y < 0
    · have hsign : "-".toList = ['-'] := rfl
      rw [if_pos hneg, hsign, List.singleton_append, List.cons_append, yearAt_signed (.inl rfl) hs hr,
        if_pos rfl]
      congr 2
      omega
    · have hsign : "+".toList = ['+'] := rfl
      rw [if_neg hneg, hsign, List.singleton_append, List.cons_append, yearAt_signed (.inr rfl) hs hr,
        if_neg (by decide)]
      congr 2
      omega

theorem exactly_cons (c : Char) (r : List Char) : exactly c (c :: r) = some r := by
  rw [exactly, if_pos rfl]

theorem number_two {n : Nat} (h : n < 100) (rest : List Char) :
    number 2 ((two n).toList ++ rest) = some (n, rest) := by
  rw [two_eq]
  exact number_digitsOf (by omega) h rest

/-- The text of a date of the supported years is read back as the number of its day. -/
theorem dateAt_dateText {d : CivilDate} (hd : Calendar.isDate d = true)
    (hmin : Calendar.minYear ≤ d.year) (hmax : d.year ≤ Calendar.maxYear) (rest : List Char) :
    dateAt ((dateText d).toList ++ rest) = some (Calendar.dayNumber d, rest) := by
  have hbounds := hd
  simp only [Calendar.isDate, Bool.and_eq_true, decide_eq_true_eq] at hbounds
  have hday : d.day < 100 := by
    have : Calendar.daysInMonth d.year d.month ≤ 31 := by
      unfold Calendar.daysInMonth
      split <;> (try split) <;> omega
    omega
  have hchars : (dateText d).toList ++ rest =
      (yearText d.year).toList ++ '-' :: ((two d.month).toList ++ '-' :: ((two d.day).toList ++ rest)) := by
    simp [dateText, String.toList_append]
  have hstops : ∀ r, Stops isDigit ('-' :: r) := by
    intro r c hc
    cases hc
    rfl
  rw [hchars, dateAt, yearAt_yearText d.year (hstops _)]
  simp only [Option.bind_eq_bind, Option.bind_some, exactly_cons, number_two (show d.month < 100 by omega),
    number_two hday]
  exact if_pos ⟨hd, hmin, hmax⟩

theorem fractionAt_digitsOf {nanos : Nat} (h : nanos < 1000000000) :
    fractionAt ('.' :: (digitsOf 9 nanos).toList) = some (nanos, []) := by
  have hs := spells_digitsOf 9 nanos
  have hlen : (digitsOf 9 nanos).toList.length = 9 := length_digitsOf (by omega) h
  have hall : (digitsOf 9 nanos).toList.takeWhile isDigit = (digitsOf 9 nanos).toList :=
    List.takeWhile_eq_self_iff.mpr hs.digits
  rw [fractionAt, hall]
  dsimp only
  rw [List.isEmpty_eq_false_iff.mpr hs.some, List.take_of_length_le (by omega), hlen, hs.value,
    List.drop_of_length_le (by omega), Nat.sub_self]
  exact congrArg some (congrArg (fun n => (n, [])) (Nat.mul_one nanos))

/-- A clock and nine digits of a second are read back; the second sixty stands for the leap
second. -/
theorem clockAt_clock {hour minute second nanos : Nat} (hh : hour < 24) (hm : minute < 60)
    (hs : second < 61) (hn : nanos < 1000000000) :
    clockAt ((two hour).toList ++ ':' :: ((two minute).toList ++ ':' :: ((two second).toList ++ '.' ::
      (digitsOf 9 nanos).toList))) =
        if second = 60 then some (hour * 3600 + minute * 60 + 59, 1000000000 + nanos, [])
        else some (hour * 3600 + minute * 60 + second, nanos, []) := by
  unfold clockAt
  simp only [Option.bind_eq_bind, Option.bind_some, exactly_cons, number_two (show hour < 100 by omega),
    number_two (show minute < 100 by omega), number_two (show second < 100 by omega),
    fractionAt_digitsOf hn]
  rw [if_neg (by omega)]

/-! ## Stored texts -/

/-- The timestamps that a stored text tells: those of the supported years, in no leap second but one
after the last second of a minute. -/
def Told (t : Timestamp) : Prop :=
  firstSecond ≤ t.seconds ∧ t.seconds ≤ lastSecond ∧
    (t.nanos < 1000000000 ∨ (t.nanos < 2000000000 ∧ t.seconds % 60 = 59))

theorem unspaced_digitsOf (width n : Nat) : Unspaced (digitsOf width n) := fun _ hc =>
  not_isBlank_of_isDigit ((spells_digitsOf width n).digits _ hc)

theorem unspaced_two (n : Nat) : Unspaced (two n) := by
  rw [two_eq]
  exact unspaced_digitsOf 2 n

theorem unspaced_yearText (y : Int) : Unspaced (yearText y) := by
  have hdigits := unspaced_digitsOf 4
  unfold yearText
  split
  · exact hdigits _
  · split
    · exact (Unspaced.of_all rfl).append (hdigits _)
    · exact (Unspaced.of_all rfl).append (hdigits _)

theorem unspaced_dateText (d : CivilDate) : Unspaced (dateText d) :=
  ((((unspaced_yearText _).append (.of_all rfl)).append (unspaced_two _)).append (.of_all rfl)).append
    (unspaced_two _)

theorem unspaced_clockText (t : Timestamp) : Unspaced t.clockText :=
  ((((unspaced_two _).append (.of_all rfl)).append (unspaced_two _)).append (.of_all rfl)).append
    (unspaced_two _)

theorem unspaced_storedText (t : Timestamp) : Unspaced t.storedText :=
  ((((unspaced_dateText _).append (.of_all rfl)).append t.unspaced_clockText).append (.of_all rfl)).append
    (unspaced_digitsOf 9 _)

theorem clockAt_clockText {t : Timestamp} (h : t.Told) :
    clockAt (t.clockText.toList ++ '.' :: (digitsOf 9 t.fraction).toList) =
      some ((t.seconds % 86400).toNat, t.nanos, []) := by
  have hfraction : t.fraction = t.nanos % 1000000000 := rfl
  have hbelow : t.fraction < 1000000000 := Nat.mod_lt _ (by decide)
  generalize hs : (t.seconds % 86400).toNat = s
  have hclock : ∀ second, second < 61 →
      s % 60 + (if t.nanos < 1000000000 then 0 else 1) = second →
      clockAt (t.clockText.toList ++ '.' :: (digitsOf 9 t.fraction).toList) =
        if second = 60 then some (s / 3600 * 3600 + s / 60 % 60 * 60 + 59,
          1000000000 + t.fraction, [])
        else some (s / 3600 * 3600 + s / 60 % 60 * 60 + second, t.fraction, []) := by
    intro second hlt hsecond
    have hchars : t.clockText.toList ++ '.' :: (digitsOf 9 t.fraction).toList =
        (two (s / 3600)).toList ++ ':' :: ((two (s / 60 % 60)).toList ++ ':' ::
          ((two second).toList ++ '.' :: (digitsOf 9 t.fraction).toList)) := by
      simp [clockText, String.toList_append, hs, hsecond]
    rw [hchars]
    exact clockAt_clock (by omega) (by omega) hlt hbelow
  obtain hn | ⟨hn, hlast⟩ := h.2.2
  · rw [hclock (s % 60) (by omega) (by rw [if_pos hn]; rfl), if_neg (by omega)]
    congr 3 <;> omega
  · by_cases hleap : t.nanos < 1000000000
    · rw [hclock (s % 60) (by omega) (by rw [if_pos hleap]; rfl), if_neg (by omega)]
      congr 3 <;> omega
    · rw [hclock 60 (by omega) (by rw [if_neg hleap]; omega), if_pos rfl]
      congr 3 <;> omega

/-- A stored text is read back as the timestamp that it tells. -/
theorem read_storedText {t : Timestamp} (h : t.Told) : read? t.storedText = some t := by
  have hfirst : Calendar.firstDay * 86400 ≤ t.seconds := h.1
  have hlast : t.seconds ≤ Calendar.lastDay * 86400 + 86399 := h.2.1
  have hyear := Calendar.year_civilDate (n := t.seconds / 86400) (by omega) (by omega)
  have hdate := dateAt_dateText (d := t.date) (Calendar.isDate_civilDate _) hyear.1 hyear.2
  have hday : Calendar.dayNumber t.date = t.seconds / 86400 := Calendar.dayNumber_civilDate _
  have hchars : t.storedText.toList = (dateText t.date).toList ++
      'T' :: (t.clockText.toList ++ '.' :: (digitsOf 9 t.fraction).toList) := by
    simp [storedText, String.toList_append]
  have hseconds : t.seconds / 86400 * 86400 + ((t.seconds % 86400).toNat : Int) =
      t.seconds := by omega
  have hfull : fullAt (exactly 'T') t.storedText.toList = some t := by
    unfold fullAt
    rw [hchars, hdate]
    simp only [Option.bind_eq_bind, Option.bind_some, exactly_cons, clockAt_clockText h,
      hday, hseconds]
    rfl
  rw [read?, hfull]
  rfl

end Timestamp

/-! ## Ticks -/

theorem fitsInt64_toInt (i : Int64) : FitsInt64 i.toInt := ⟨i.le_toInt, i.toInt_le⟩

namespace Tick

theorem checked_eq_some {i j : Int} : checked i = some j ↔ FitsInt64 i ∧ i = j := by
  unfold checked
  split
  · rename_i h
    rw [Option.some.injEq, and_iff_right h]
  · rename_i h
    exact ⟨nofun, fun hi => absurd hi.1 h⟩

theorem count_eq_some {seconds part n : Int} (h : count seconds part = some n) :
    n = seconds * perSecond + part ∧ FitsInt64 n := by
  obtain ⟨t, ht, hn⟩ := Option.bind_eq_some_iff.mp h
  obtain ⟨-, rfl⟩ := checked_eq_some.mp ht
  obtain ⟨hfits, rfl⟩ := checked_eq_some.mp hn
  exact ⟨rfl, hfits⟩

theorem toInt_ofInt {i : Int} (h : FitsInt64 i) : (Int64.ofInt i).toInt = i :=
  toInt_of_int64? (by rw [int64?, if_pos h])

/-- The start of the tick in which a timestamp lies. -/
def start (t : Timestamp) : Timestamp := ⟨t.seconds, t.nanos / 100 * 100⟩

/-- The tick of a timestamp starts at its start. -/
theorem toTimestamp_of_ofTimestamp {t : Timestamp} (ht : t.Supported) {n : Int64}
    (h : ofTimestamp t = .ok n) : toTimestamp n = .ok (start t) := by
  unfold ofTimestamp at h
  split at h
  · rename_i i hi
    cases h
    obtain ⟨relative, hrelative, hi⟩ := Option.bind_eq_some_iff.mp hi
    obtain ⟨hfits, rfl⟩ := checked_eq_some.mp hi
    obtain ⟨hcount, hback⟩ := count_eq_some hrelative
    obtain ⟨hfirst, hlast, hnanos⟩ := ht
    have hchecked : checked ((Int64.ofInt (relative + epoch)).toInt - epoch) = some relative := by
      rw [toInt_ofInt hfits, Int.add_sub_cancel]
      exact checked_eq_some.mpr ⟨hback, rfl⟩
    have hseconds : relative / perSecond = t.seconds := by
      unfold perSecond nanosPerTick at *
      omega
    have hpart : (relative % perSecond * nanosPerTick).toNat = t.nanos / 100 * 100 := by
      unfold perSecond nanosPerTick at *
      omega
    have hsupported : (start t).Supported := ⟨hfirst, hlast, by unfold start; dsimp only; omega⟩
    unfold toTimestamp
    rw [hchecked]
    dsimp only
    rw [hseconds, hpart]
    exact if_pos hsupported
  · cases h

theorem tdiv_of_seconds_nonneg {x : Int} (h : 0 ≤ x) :
    x.tdiv 1000000000 * 10000000 + (x.tmod 1000000000).tdiv 100 = x.tdiv 100 := by
  rw [Int.tdiv_eq_ediv_of_nonneg h, Int.tdiv_eq_ediv_of_nonneg h, Int.tmod_eq_emod_of_nonneg h,
    Int.tdiv_eq_ediv_of_nonneg (by omega)]
  omega

/-- The whole seconds and the ticks of the rest, both counted toward zero, are the ticks of all. -/
theorem tdiv_of_seconds (x : Int) :
    x.tdiv 1000000000 * 10000000 + (x.tmod 1000000000).tdiv 100 = x.tdiv 100 := by
  by_cases h : 0 ≤ x
  · exact tdiv_of_seconds_nonneg h
  · have hneg := tdiv_of_seconds_nonneg (x := -x) (by omega)
    simp only [Int.neg_tdiv, Int.neg_tmod] at hneg
    omega

/-- The ticks of an interval are the interval cut off toward zero. -/
theorem toInterval_of_ofInterval {d : Interval} {n : Int64} (h : ofInterval d = .ok n) :
    toInterval n = ⟨d.nanoseconds.tdiv 100 * 100⟩ := by
  unfold ofInterval at h
  split at h
  · rename_i i hi
    cases h
    obtain ⟨hcount, hfits⟩ := count_eq_some hi
    have hticks : i = d.nanoseconds.tdiv 100 := hcount.trans (tdiv_of_seconds d.nanoseconds)
    unfold toInterval
    rw [toInt_ofInt hfits, ← hticks]
    unfold perSecond nanosPerTick
    congr 1
    omega
  · cases h

end Tick
end RecordMapper
