import Mathlib.Data.List.Induction
import Mathlib.Order.Monotone.Basic
import RecordMapper.Engine.Formula
import RecordMapper.Proofs.CellOrder
import RecordMapper.Proofs.SettledCells

/-!
# The order of stored times

The stored texts of timestamps sort as the timestamps do, so a column of such texts may be sorted
and compared in place of the times.

1. `Bytes.ofString_eq`, `Bytes.order_append`: the bytes of a text, and the order of texts that are
   put together from parts of equal length.
2. `Aligned`: texts of one length and how they compare; `Aligned.digitsOf` for numbers of a
   fixed width.
3. `Calendar.order_dayNumber`: dates are ordered as the numbers of their days.
4. `Timestamp.order_clock`: so are clocks, the leap second as second sixty included.
5. `Timestamp.order_storedText`: so are the stored texts of years of four digits, under every
   collation and in every comparison.
-/

namespace RecordMapper

/-! ## Orderings -/

theorem Ordering.ext_lt_gt {o p : Ordering} (hlt : o = .lt ↔ p = .lt) (hgt : o = .gt ↔ p = .gt) :
    o = p := by
  cases o <;> cases p <;> simp_all

/-! ## Bytes of a text -/

namespace Bytes

theorem loop_toList (bytes : ByteArray) (i : Nat) (r : List UInt8) :
    ByteArray.toList.loop bytes i r = r.reverse ++ bytes.data.toList.drop i := by
  fun_induction ByteArray.toList.loop bytes i r with
  | case1 i r h ih =>
    have hi : i < bytes.data.toList.length := h
    rw [ih, List.drop_eq_getElem_cons hi, List.reverse_cons, List.append_assoc]
    have : bytes.get! i = bytes.data.toList[i] := by
      rw [Array.getElem_toList]
      exact getElem!_pos bytes.data i h
    rw [this]
    rfl
  | case2 i r h =>
    have hi : bytes.data.toList.length ≤ i := Nat.not_lt.mp h
    rw [List.drop_of_length_le hi, List.append_nil]

/-- The bytes of a text are those of its characters. -/
theorem ofString_eq (s : String) : ofString s = s.toList.flatMap String.utf8EncodeChar := by
  have hencode : s.toByteArray = s.toList.utf8Encode := String.utf8Encode_toList.symm
  unfold ofString
  rw [String.toUTF8_eq_toByteArray, hencode, ByteArray.toList, loop_toList, List.utf8Encode,
    List.toList_data_toByteArray]
  rfl

theorem ofString_append (s t : String) : ofString (s ++ t) = ofString s ++ ofString t := by
  simp only [ofString_eq, String.toList_append, List.flatMap_append]

theorem order_append {x y : Bytes} (h : x.length = y.length) (u v : Bytes) :
    order (x ++ u) (y ++ v) = (order x y).then (order u v) := by
  induction x generalizing y with
  | nil =>
    obtain rfl := List.eq_nil_of_length_eq_zero h.symm
    rfl
  | cons a x ih =>
    cases y with
    | nil => cases h
    | cons b y =>
      rw [List.cons_append, List.cons_append, order, order, ih (Nat.succ.inj h),
        Ordering.then_assoc]

end Bytes

/-! ## Texts of one form -/

/-- Two texts of one length that compare in a way when each byte is read through `f`. -/
structure Aligned (f : UInt8 → UInt8) (s t : String) (o : Ordering) : Prop where
  length_eq : (Bytes.ofString s).length = (Bytes.ofString t).length
  order_eq : Bytes.order ((Bytes.ofString s).map f) ((Bytes.ofString t).map f) = o

namespace Aligned

variable {f : UInt8 → UInt8} {s s' t t' : String} {o o' : Ordering}

theorem refl (f : UInt8 → UInt8) (s : String) : Aligned f s s .eq := ⟨rfl, Std.ReflCmp.compare_self⟩

theorem append (h : Aligned f s t o) (h' : Aligned f s' t' o') :
    Aligned f (s ++ s') (t ++ t') (o.then o') := by
  constructor
  · simp only [Bytes.ofString_append, List.length_append, h.length_eq, h'.length_eq]
  · simp only [Bytes.ofString_append, List.map_append]
    rw [Bytes.order_append (by simp only [List.length_map, h.length_eq]), h.order_eq, h'.order_eq]

/-- The bytes of the digits stay as they are. -/
def KeepsDigits (f : UInt8 → UInt8) : Prop := ∀ b : UInt8, 48 ≤ b → b ≤ 57 → f b = b

theorem digit {c : Char} (h : isDigit c = true) :
    ∃ b : UInt8, String.utf8EncodeChar c = [b] ∧ 48 ≤ b ∧ b ≤ 57 ∧ b.toNat = 48 + digitValue c := by
  simp only [isDigit, Bool.and_eq_true, decide_eq_true_eq, Char.le_def, UInt32.le_iff_toNat_le] at h
  have hlow : 48 ≤ c.toNat := h.1
  have hhigh : c.toNat ≤ 57 := h.2
  have hsize : c.utf8Size = 1 := by
    unfold Char.utf8Size
    rw [if_pos]
    exact UInt32.le_iff_toNat_le.mpr (Nat.le_trans h.2 (by decide))
  have hb : c.val.toUInt8.toNat = c.toNat := by
    rw [UInt32.toNat_toUInt8]
    exact Nat.mod_eq_of_lt (by have : c.val.toNat = c.toNat := rfl; omega)
  refine ⟨_, String.utf8EncodeChar_eq_singleton hsize, ?_, ?_, ?_⟩
  · exact UInt8.le_iff_toNat_le.mpr (by rw [hb]; exact hlow)
  · exact UInt8.le_iff_toNat_le.mpr (by rw [hb]; exact hhigh)
  · rw [hb, digitValue]
    have : '0'.toNat = 48 := rfl
    omega

theorem bytes_of_digits {cs : List Char} (h : ∀ c ∈ cs, isDigit c = true) :
    (cs.flatMap String.utf8EncodeChar).length = cs.length := by
  induction cs with
  | nil => rfl
  | cons c cs ih =>
    obtain ⟨b, hb, -⟩ := digit (h c List.mem_cons_self)
    rw [List.flatMap_cons, hb, List.singleton_append, List.length_cons, List.length_cons,
      ih fun d hd => h d (List.mem_cons_of_mem _ hd)]

/-- Numerals of one length compare as their values; the last digit decides where the others
agree. -/
theorem order_digits (hf : KeepsDigits f) {cs ds : List Char} (hlen : cs.length = ds.length)
    (hc : ∀ c ∈ cs, isDigit c = true) (hd : ∀ d ∈ ds, isDigit d = true) :
    Bytes.order ((cs.flatMap String.utf8EncodeChar).map f) ((ds.flatMap String.utf8EncodeChar).map f) =
      compare (digitsValue cs) (digitsValue ds) := by
  induction cs using List.reverseRecOn generalizing ds with
  | nil =>
    obtain rfl := List.eq_nil_of_length_eq_zero hlen.symm
    rfl
  | append_singleton cs c ih =>
    obtain rfl | ⟨ds, d, rfl⟩ := List.eq_nil_or_concat' ds
    · simp at hlen
    · have hlen' : cs.length = ds.length := by simpa using hlen
      have hcs : ∀ x ∈ cs, isDigit x = true := fun x hx => hc x (List.mem_append_left _ hx)
      have hds : ∀ x ∈ ds, isDigit x = true := fun x hx => hd x (List.mem_append_left _ hx)
      obtain ⟨a, ha, hlow, hhigh, hca⟩ := digit (hc c List.mem_concat_self)
      obtain ⟨b, hb, hlow', hhigh', hdb⟩ := digit (hd d List.mem_concat_self)
      have hlast : Bytes.order [a] [b] = compare (digitValue c) (digitValue d) := by
        show (compare a b).then .eq = _
        refine Ordering.then_eq.trans (Ordering.ext_lt_gt ?_ ?_)
        · rw [Std.compare_eq_lt, UInt8.lt_iff_toNat_lt, Nat.compare_eq_lt]
          omega
        · rw [Std.compare_eq_gt, UInt8.lt_iff_toNat_lt, Nat.compare_eq_gt]
          omega
      rw [List.flatMap_append, List.flatMap_append, List.map_append, List.map_append,
        Bytes.order_append (by simp only [List.length_map, bytes_of_digits hcs, bytes_of_digits hds, hlen']),
        ih hlen' hcs hds, List.flatMap_singleton, List.flatMap_singleton, ha, hb,
        List.map_singleton,
        List.map_singleton, hf a hlow hhigh, hf b hlow' hhigh', hlast, digitsValue_append_singleton,
        digitsValue_append_singleton]
      have : digitValue c ≤ 9 := by
        have := UInt8.le_iff_toNat_le.mp hhigh
        have : (57 : UInt8).toNat = 57 := rfl
        omega
      have : digitValue d ≤ 9 := by
        have := UInt8.le_iff_toNat_le.mp hhigh'
        have : (57 : UInt8).toNat = 57 := rfl
        omega
      refine Ordering.ext_lt_gt ?_ ?_
      · simp only [Ordering.then_eq_lt, Nat.compare_eq_lt, Nat.compare_eq_eq]
        omega
      · simp only [Ordering.then_eq_gt, Nat.compare_eq_gt, Nat.compare_eq_eq]
        omega

/-- Numbers in one fixed width compare as numbers. -/
theorem digitsOf (hf : KeepsDigits f) {width n m : Nat} (hw : 0 < width) (hn : n < tenTo width)
    (hm : m < tenTo width) :
    Aligned f (Timestamp.digitsOf width n) (Timestamp.digitsOf width m) (compare n m) := by
  have hsn := Timestamp.spells_digitsOf width n
  have hsm := Timestamp.spells_digitsOf width m
  have hlen : (Timestamp.digitsOf width n).toList.length =
      (Timestamp.digitsOf width m).toList.length := by
    rw [Timestamp.length_digitsOf hw hn, Timestamp.length_digitsOf hw hm]
  constructor
  · rw [Bytes.ofString_eq, Bytes.ofString_eq, bytes_of_digits hsn.digits,
      bytes_of_digits hsm.digits, hlen]
  · rw [Bytes.ofString_eq, Bytes.ofString_eq, order_digits hf hlen hsn.digits hsm.digits, hsn.value,
      hsm.value]

theorem twoDigits (hf : KeepsDigits f) {n m : Nat} (hn : n < 100) (hm : m < 100) :
    Aligned f (Timestamp.two n) (Timestamp.two m) (compare n m) := by
  rw [Timestamp.two_eq, Timestamp.two_eq]
  exact digitsOf hf (by decide) hn hm

end Aligned

/-! ## Dates -/

namespace Calendar

variable {d e : CivilDate}

/-- The days of the years before a year, years starting in March. -/
def daysBefore (y : Int) : Int := 365 * y + y / 4 - y / 100 + y / 400

def marchYear (d : CivilDate) : Int := if d.month ≤ 2 then d.year - 1 else d.year

def marchMonth (d : CivilDate) : Int :=
  if d.month ≤ 2 then (d.month : Int) + 9 else (d.month : Int) - 3

/-- The days of a year, starting in March, before a month of it. -/
def daysBeforeMonth (m : Int) : Int := (153 * m + 2) / 5

theorem dayNumber_eq (d : CivilDate) : dayNumber d =
    daysBefore (marchYear d) + daysBeforeMonth (marchMonth d) + d.day - 719469 := by
  unfold dayNumber daysBefore daysBeforeMonth
  show marchYear d / 400 * 146097 + (marchYear d % 400 * 365 + marchYear d % 400 / 4 -
    marchYear d % 400 / 100 + ((153 * marchMonth d + 2) / 5 + d.day - 1)) - 719468 = _
  omega

theorem daysBefore_succ (y : Int) :
    daysBefore (y + 1) = daysBefore y + (if isLeapYear (y + 1) then 366 else 365) := by
  unfold daysBefore isLeapYear
  split
  · rename_i h
    simp only [Bool.and_eq_true, Bool.or_eq_true, beq_iff_eq, bne_iff_ne] at h
    omega
  · rename_i h
    simp only [Bool.and_eq_true, Bool.or_eq_true, beq_iff_eq, bne_iff_ne, not_and_or, not_or,
      not_not] at h
    omega

theorem daysBefore_le {y z : Int} (h : y ≤ z) : daysBefore y ≤ daysBefore z := by
  refine monotone_int_of_le_succ (fun y => ?_) h
  rw [daysBefore_succ]
  split <;> omega

theorem day_bounds (h : isDate d = true) :
    0 ≤ marchMonth d ∧ marchMonth d ≤ 11 ∧ 1 ≤ d.day ∧
      daysBeforeMonth (marchMonth d) + d.day ≤ daysBeforeMonth (marchMonth d + 1) ∧
      daysBeforeMonth (marchMonth d) + d.day ≤
        if isLeapYear (marchYear d + 1) then 366 else 365 := by
  simp only [isDate, Bool.and_eq_true, decide_eq_true_eq] at h
  obtain ⟨⟨⟨hlow, hhigh⟩, hfirst⟩, hlast⟩ := h
  have hm : d.month = 1 ∨ d.month = 2 ∨ d.month = 3 ∨ d.month = 4 ∨ d.month = 5 ∨ d.month = 6 ∨
      d.month = 7 ∨ d.month = 8 ∨ d.month = 9 ∨ d.month = 10 ∨ d.month = 11 ∨ d.month = 12 := by
    omega
  unfold marchMonth marchYear daysBeforeMonth
  rcases hm with hm | hm | hm | hm | hm | hm | hm | hm | hm | hm | hm | hm <;> rw [hm] at hlast ⊢
  all_goals simp only [daysInMonth] at hlast
  case inr.inl =>
    have hyear : d.year - 1 + 1 = d.year := by omega
    simp only [Nat.le_refl, if_true, hyear]
    split at hlast <;> rename_i hleap
    · rw [if_pos hleap]
      omega
    · rw [if_neg hleap]
      omega
  all_goals
    simp only [Nat.reduceLeDiff, ↓reduceIte]
    split <;> omega

theorem two_digits (h : isDate d = true) : d.month < 100 ∧ d.day < 100 := by
  obtain ⟨hlow, hhigh, -, hmonth, -⟩ := day_bounds h
  unfold daysBeforeMonth at hmonth
  unfold marchMonth at *
  split at hhigh <;> omega

theorem dayNumber_lt_of_year (hd : isDate d = true) (he : isDate e = true)
    (h : marchYear d < marchYear e) : dayNumber d < dayNumber e := by
  obtain ⟨-, -, -, -, hd⟩ := day_bounds hd
  obtain ⟨he, -, hday, -⟩ := day_bounds he
  have hstart := daysBefore_le (show marchYear d + 1 ≤ marchYear e by omega)
  rw [daysBefore_succ] at hstart
  have hmonth : 0 ≤ daysBeforeMonth (marchMonth e) := by unfold daysBeforeMonth; omega
  rw [dayNumber_eq, dayNumber_eq]
  omega

theorem dayNumber_lt_of_month (hd : isDate d = true) (he : isDate e = true)
    (hy : marchYear d = marchYear e) (h : marchMonth d < marchMonth e) :
    dayNumber d < dayNumber e := by
  obtain ⟨-, -, -, hd, -⟩ := day_bounds hd
  obtain ⟨-, -, hday, -⟩ := day_bounds he
  have hmonth : daysBeforeMonth (marchMonth d + 1) ≤ daysBeforeMonth (marchMonth e) := by
    unfold daysBeforeMonth
    omega
  rw [dayNumber_eq, dayNumber_eq, hy]
  omega

theorem dayNumber_lt (hd : isDate d = true) (he : isDate e = true)
    (h : d.year < e.year ∨ d.year = e.year ∧ (d.month < e.month ∨ d.month = e.month ∧ d.day < e.day)) :
    dayNumber d < dayNumber e := by
  obtain hy | ⟨hy, hm⟩ : marchYear d < marchYear e ∨ marchYear d = marchYear e ∧
      (marchMonth d < marchMonth e ∨ marchMonth d = marchMonth e ∧ d.day < e.day) := by
    simp only [isDate, Bool.and_eq_true, decide_eq_true_eq] at hd he
    unfold marchYear marchMonth
    split <;> split <;> omega
  · exact dayNumber_lt_of_year hd he hy
  · obtain hm | ⟨hm, hday⟩ := hm
    · exact dayNumber_lt_of_month hd he hy hm
    · rw [dayNumber_eq, dayNumber_eq, hy, hm]
      omega

/-- Dates are ordered by year, month and day as by the numbers of their days. -/
theorem order_dayNumber (hd : isDate d = true) (he : isDate e = true) :
    ((compare d.year e.year).then (compare d.month e.month)).then (compare d.day e.day) =
      compare (dayNumber d) (dayNumber e) := by
  have hlt := dayNumber_lt hd he
  have hgt := dayNumber_lt he hd
  have heq : d.year = e.year ∧ d.month = e.month ∧ d.day = e.day → dayNumber d = dayNumber e := by
    rintro ⟨hy, hm, hday⟩
    unfold dayNumber
    rw [hy, hm, hday]
  refine Ordering.ext_lt_gt ?_ ?_
  · simp only [Ordering.then_eq_lt, Ordering.then_eq_eq, compare_lt_iff_lt, compare_eq_iff_eq]
    omega
  · simp only [Ordering.then_eq_gt, Ordering.then_eq_eq, compare_gt_iff_gt, compare_eq_iff_eq]
    omega

end Calendar

/-! ## Timestamps -/

namespace Timestamp

variable {f : UInt8 → UInt8} {a b : Timestamp}

/-- The order of time: the leap second after a second comes before the next second. -/
def order (a b : Timestamp) : Ordering :=
  (compare a.seconds b.seconds).then (compare a.nanos b.nanos)

/-- The timestamps of the years 0 to 9999, in no leap second but one after the last second of a
minute. -/
structure FourDigits (t : Timestamp) : Prop where
  year_nonneg : 0 ≤ t.date.year
  year_le : t.date.year ≤ 9999
  nanos : t.nanos < 1000000000 ∨ (t.nanos < 2000000000 ∧ t.seconds % 60 = 59)

/-- The second of a minute that a clock shows. -/
def shownSecond (t : Timestamp) : Nat :=
  (t.seconds % 86400).toNat % 60 + (if t.nanos < 1000000000 then 0 else 1)

theorem order_sixties (s t : Nat) :
    (compare (s / 60) (t / 60)).then (compare (s % 60) (t % 60)) = compare s t := by
  refine Ordering.ext_lt_gt ?_ ?_
  · simp only [Ordering.then_eq_lt, Nat.compare_eq_lt, Nat.compare_eq_eq]
    omega
  · simp only [Ordering.then_eq_gt, Nat.compare_eq_gt, Nat.compare_eq_eq]
    omega

/-- The second of the minute: the leap second is shown as the next one, with the fraction that
is left. -/
theorem order_shownSecond (ha : a.FourDigits) (hb : b.FourDigits) :
    (compare a.shownSecond b.shownSecond).then (compare a.fraction b.fraction) =
      (compare ((a.seconds % 86400).toNat % 60) ((b.seconds % 86400).toNat % 60)).then
        (compare a.nanos b.nanos) := by
  have hsecond : ∀ t : Timestamp, t.FourDigits → t.nanos < 1000000000 ∧ t.fraction = t.nanos ∧
      t.shownSecond = (t.seconds % 86400).toNat % 60 ∨ (t.seconds % 86400).toNat % 60 = 59 ∧
        1000000000 ≤ t.nanos ∧ t.nanos = t.fraction + 1000000000 ∧ t.shownSecond = 60 := by
    rintro t ⟨-, -, ht⟩
    unfold shownSecond fraction
    split <;> omega
  have hle : ∀ t : Timestamp, (t.seconds % 86400).toNat % 60 < 60 :=
    fun t => Nat.mod_lt _ (by decide)
  have hla := hle a
  have hlb := hle b
  have ha := hsecond a ha
  have hb := hsecond b hb
  generalize (a.seconds % 86400).toNat % 60 = s at *
  generalize (b.seconds % 86400).toNat % 60 = t at *
  refine Ordering.ext_lt_gt ?_ ?_
  · simp only [Ordering.then_eq_lt, Nat.compare_eq_lt, Nat.compare_eq_eq]
    omega
  · simp only [Ordering.then_eq_gt, Nat.compare_eq_gt, Nat.compare_eq_eq]
    omega

/-- Clocks are ordered by what they show as by the seconds of the day. -/
theorem order_clock (ha : a.FourDigits) (hb : b.FourDigits) {s t : Nat}
    (hs : (a.seconds % 86400).toNat = s) (ht : (b.seconds % 86400).toNat = t) :
    (((compare (s / 3600) (t / 3600)).then (compare (s / 60 % 60) (t / 60 % 60))).then
      (compare a.shownSecond b.shownSecond)).then (compare a.fraction b.fraction) =
        (compare s t).then (compare a.nanos b.nanos) := by
  have hhours : ∀ n : Nat, n / 3600 = n / 60 / 60 := fun n => (Nat.div_div_eq_div_mul n 60 60).symm
  rw [Ordering.then_assoc _ _ (compare a.fraction b.fraction), order_shownSecond ha hb,
    hs, ht, hhours, hhours, order_sixties, ← Ordering.then_assoc, order_sixties]

theorem order_eq (a b : Timestamp) : a.order b =
    (compare (a.seconds / 86400) (b.seconds / 86400)).then
      ((compare (a.seconds % 86400).toNat (b.seconds % 86400).toNat).then (compare a.nanos b.nanos)) := by
  unfold order
  rw [← Ordering.then_assoc]
  congr 1
  refine Ordering.ext_lt_gt ?_ ?_
  · simp only [Ordering.then_eq_lt, compare_lt_iff_lt, compare_eq_iff_eq]
    omega
  · simp only [Ordering.then_eq_gt, compare_gt_iff_gt, compare_eq_iff_eq]
    omega

theorem aligned_yearText {y z : Int} (hf : Aligned.KeepsDigits f) (hy : 0 ≤ y ∧ y ≤ 9999)
    (hz : 0 ≤ z ∧ z ≤ 9999) : Aligned f (yearText y) (yearText z) (compare y z) := by
  have hcompare : compare y z = compare y.toNat z.toNat := by
    refine Ordering.ext_lt_gt ?_ ?_
    · rw [compare_lt_iff_lt, Nat.compare_eq_lt]
      omega
    · rw [compare_gt_iff_gt, Nat.compare_eq_gt]
      omega
  unfold yearText
  rw [if_pos hy, if_pos hz, hcompare]
  exact .digitsOf hf (by decide) (show _ < 10000 by omega) (show _ < 10000 by omega)

/-- The texts of two timestamps, each byte read through `f`, compare as the timestamps do. -/
theorem aligned_storedText (hf : Aligned.KeepsDigits f) (ha : a.FourDigits) (hb : b.FourDigits) :
    Aligned f a.storedText b.storedText (a.order b) := by
  have hda : Calendar.isDate a.date = true := Calendar.isDate_civilDate _
  have hdb : Calendar.isDate b.date = true := Calendar.isDate_civilDate _
  have hdays : ∀ t : Timestamp, Calendar.dayNumber t.date = t.seconds / 86400 := fun t =>
    Calendar.dayNumber_civilDate _
  have hseconds : ∀ t : Timestamp, (t.seconds % 86400).toNat / 3600 < 100 ∧
      (t.seconds % 86400).toNat / 60 % 60 < 100 ∧ t.shownSecond < 100 := by
    intro t
    unfold shownSecond
    split <;> omega
  have hdate := (((aligned_yearText hf ⟨ha.year_nonneg, ha.year_le⟩ ⟨hb.year_nonneg, hb.year_le⟩).append
    (.refl f "-")).append (.twoDigits hf (Calendar.two_digits hda).1
      (Calendar.two_digits hdb).1)).append
      (.refl f "-") |>.append (.twoDigits hf (Calendar.two_digits hda).2 (Calendar.two_digits hdb).2)
  have hclock := (((Aligned.twoDigits hf (hseconds a).1 (hseconds b).1).append (.refl f ":")).append
    (.twoDigits hf (hseconds a).2.1 (hseconds b).2.1)).append (.refl f ":") |>.append
      (.twoDigits hf (hseconds a).2.2 (hseconds b).2.2)
  have hfraction : Aligned f (digitsOf 9 a.fraction) (digitsOf 9 b.fraction) _ :=
    .digitsOf hf (by decide) (Nat.mod_lt _ (by decide)) (Nat.mod_lt _ (by decide))
  have hall := (((hdate.append (.refl f "T")).append hclock).append (.refl f ".")).append hfraction
  have horder := order_clock ha hb rfl rfl
  have hdays' := Calendar.order_dayNumber hda hdb
  rw [hdays, hdays] at hdays'
  simp only [Ordering.then_eq] at hall
  rw [Ordering.then_assoc _ _ (compare a.fraction b.fraction), horder, hdays', ← order_eq] at hall
  exact hall

/-! ## Cells and comparisons -/

/-- What a collation reads the bytes of a stored text through: no blank ends it, so none is left
out. -/
theorem sortBytes_storedText (c : Collation) : ∃ f, Aligned.KeepsDigits f ∧
    ∀ t : Timestamp, c.sortBytes (Bytes.ofString t.storedText) =
      (Bytes.ofString t.storedText).map f := by
  cases c with
  | binary => exact ⟨id, fun _ _ _ => rfl, fun t => (List.map_id _).symm⟩
  | noCase =>
    refine ⟨fun b => if 65 ≤ b ∧ b ≤ 90 then b + 32 else b, fun b _ hb => if_neg ?_, fun t => rfl⟩
    rintro ⟨hlow, -⟩
    exact absurd (UInt8.le_trans hlow hb) (by decide)
  | rtrim =>
    refine ⟨id, fun _ _ _ => rfl, fun t => ?_⟩
    have hdigits := (spells_digitsOf 9 t.fraction).digits
    have hne : Bytes.ofString (digitsOf 9 t.fraction) ≠ [] := by
      have hlen := length_digitsOf (by decide : 0 < 9) (Nat.mod_lt t.nanos (by decide))
      rw [Bytes.ofString_eq]
      exact List.ne_nil_of_length_pos (by rw [Aligned.bytes_of_digits hdigits, fraction, hlen]; decide)
    obtain ⟨init, last, hlast⟩ := (List.eq_nil_or_concat' _).resolve_left hne
    have hdigit : last ≠ 32 := by
      have hmem : last ∈ Bytes.ofString (digitsOf 9 t.fraction) := hlast ▸ List.mem_concat_self
      rw [Bytes.ofString_eq] at hmem
      obtain ⟨c, hc, hb⟩ := List.mem_flatMap.mp hmem
      obtain ⟨b, hone, hlow, -⟩ := Aligned.digit (hdigits c hc)
      rw [hone] at hb
      obtain rfl := List.mem_singleton.mp hb
      rintro rfl
      exact absurd hlow (by decide)
    unfold Collation.sortBytes storedText
    rw [Bytes.ofString_append, hlast, ← List.append_assoc, List.reverse_concat, List.map_id]
    dsimp only
    rw [List.dropWhile_cons_of_neg (by simpa using hdigit), List.reverse_cons, List.reverse_reverse]

/-- A stored text is no numeral, so it stays a text where numbers are asked for. -/
theorem numericText_storedText (t : Timestamp) :
    Cell.numericText (.text t.storedText) = .text t.storedText := by
  have hnone := Cell.wholeNumber?_foreign t.mem_storedText (by decide) (by decide)
  unfold Cell.numericText
  simp only [hnone]
  rfl

theorem stored_storedText (affinity : Affinity) (t : Timestamp) :
    Cell.stored affinity (.text t.storedText) = .text t.storedText := by
  cases affinity <;> simp only [Cell.stored, numericText_storedText]

theorem comparable_storedText (affinity : Option Affinity) (a b : Timestamp) :
    Cell.comparable affinity (.text a.storedText) (.text b.storedText) =
      (.text a.storedText, .text b.storedText) := by
  obtain - | affinity := affinity
  · rfl
  · cases affinity <;> simp only [Cell.comparable, Affinity.isNumeric, numericText_storedText] <;> rfl

theorem order_cells (c : Collation) (ha : a.FourDigits) (hb : b.FourDigits) :
    Cell.order c (.text a.storedText) (.text b.storedText) = a.order b := by
  obtain ⟨f, hf, hbytes⟩ := sortBytes_storedText c
  have horder := (aligned_storedText hf ha hb).order_eq
  show Bytes.order (c.sortBytes (Bytes.ofString a.storedText)) (c.sortBytes (Bytes.ofString b.storedText)) = _
  rw [hbytes, hbytes, horder]

theorem apply_cells (op : Comparison) (m : Matching) (ha : a.FourDigits) (hb : b.FourDigits) :
    op.apply m (.text a.storedText) (.text b.storedText) = Cell.ofBool (op.holds (a.order b)) := by
  unfold Comparison.apply
  rw [comparable_storedText]
  dsimp only
  rw [order_cells m.collation ha hb]
  rfl

/-- **Stored texts sort as the timestamps do**: byte by byte, as cells of a column under every
collation, and in every comparison whatever affinity it applies. -/
theorem order_storedText (ha : a.FourDigits) (hb : b.FourDigits) :
    Bytes.order (Bytes.ofString a.storedText) (Bytes.ofString b.storedText) = a.order b ∧
      ∃ x y, (Value.timestamp a).toCell false = .ok x ∧ (Value.timestamp b).toCell false = .ok y ∧
        (∀ affinity, Cell.stored affinity x = x ∧ Cell.stored affinity y = y) ∧
        (∀ c, Cell.order c x y = a.order b) ∧
        ∀ (op : Comparison) (m : Matching), op.apply m x y = Cell.ofBool (op.holds (a.order b)) :=
  ⟨order_cells .binary ha hb, .text a.storedText, .text b.storedText, rfl, rfl,
    fun affinity => ⟨stored_storedText affinity a, stored_storedText affinity b⟩,
    fun c => order_cells c ha hb, fun op m => apply_cells op m ha hb⟩

/-- The leap second at the end of 2016, half a second in: its text ends in `:60.500000000` and sorts
before that of the new year. -/
theorem order_storedText_leapSecond :
    Bytes.order (Bytes.ofString (⟨1483228799, 1500000000⟩ : Timestamp).storedText)
      (Bytes.ofString (⟨1483228800, 0⟩ : Timestamp).storedText) = .lt :=
  (order_storedText (a := ⟨1483228799, 1500000000⟩) (b := ⟨1483228800, 0⟩)
    ⟨by decide, by decide, by decide⟩ ⟨by decide, by decide, by decide⟩).1

end Timestamp

end RecordMapper
