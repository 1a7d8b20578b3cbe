import RecordMapper.Value.Coercion
import RecordMapper.Proofs.DecimalTexts
import RecordMapper.Proofs.Quotients

/-!
# Coercing numbers to integers

A number becomes an integer of an integral type by rounding to the nearest, ties to even, and by a
check of the type's range. Decimals are rounded through a double.

1. `Nearest`: the integer nearest to a number; `nearest_halfEven` and `BinaryView.nearest_nearest`:
   quotients and floats are rounded to it.
2. `Decimal.OfFloats.nearest`: so are decimals, where their digits and their unit are floats.
3. `Value.Gives` and `Value.Coerces`: the nearest integer or a refusal; `Value.Misrounds`: where it
   is neither.
4. `Value.coerces_iff`: coercion is right just where it does not misround.
-/

namespace RecordMapper

/-! ## Nearest integers -/

/-- The integer nearest to a number; the even one of two equally near. -/
structure Nearest (q : ℚ) (n : ℤ) : Prop where
  near : |q - n| ≤ 1 / 2
  even : |q - n| = 1 / 2 → Even n

namespace Nearest

variable {q : ℚ} {m n : ℤ}

theorem unique (hm : Nearest q m) (hn : Nearest q n) : m = n := by
  have hmn : |(m : ℚ) - n| ≤ 1 := by
    calc |(m : ℚ) - n| ≤ |(m : ℚ) - q| + |q - n| := abs_sub_le _ _ _
      _ = |q - m| + |q - n| := by rw [abs_sub_comm]
      _ ≤ 1 := by linarith [hm.near, hn.near]
  have hint : |m - n| ≤ 1 := by exact_mod_cast hmn
  obtain hlt | hone := hint.lt_or_eq
  · exact sub_eq_zero.mp (Int.abs_lt_one_iff.mp hlt)
  · -- two neighbours at the same distance are not both even
    have hsum : (1 : ℚ) ≤ |q - m| + |q - n| := by
      calc (1 : ℚ) = |(m : ℚ) - n| := by exact_mod_cast hone.symm
        _ ≤ |(m : ℚ) - q| + |q - n| := abs_sub_le _ _ _
        _ = |q - m| + |q - n| := by rw [abs_sub_comm]
    have hevenm := hm.even (by linarith [hm.near, hn.near])
    have hevenn := hn.even (by linarith [hm.near, hn.near])
    have heven := hevenm.sub hevenn
    rw [Int.even_iff] at heven
    obtain h | h := abs_eq (zero_le_one) |>.mp hone <;> omega

theorem neg (h : Nearest q n) : Nearest (-q) (-n) := by
  have habs : |-q - ((-n : ℤ) : ℚ)| = |q - n| := by
    rw [Int.cast_neg, ← neg_sub', abs_neg]
  exact ⟨habs ▸ h.near, fun hq => (h.even (habs ▸ hq)).neg⟩

theorem intCast (n : ℤ) : Nearest n n := by
  constructor
  · simp
  · intro h
    simp at h

theorem iff_halves : Nearest q n ↔ ((2 * n - 1 : ℤ) : ℚ) / 2 ≤ q ∧ q ≤ ((2 * n + 1 : ℤ) : ℚ) / 2 ∧
    (q ≤ ((2 * n - 1 : ℤ) : ℚ) / 2 ∨ ((2 * n + 1 : ℤ) : ℚ) / 2 ≤ q → Even n) := by
  push_cast
  constructor
  · rintro ⟨hnear, heven⟩
    rw [abs_le] at hnear
    refine ⟨by linarith, by linarith, ?_⟩
    rintro (h | h)
    · exact heven (by rw [show q - n = -(1 / 2) by linarith, abs_neg, abs_of_pos (by norm_num)])
    · exact heven (by rw [show q - n = 1 / 2 by linarith, abs_of_pos (by norm_num)])
  · rintro ⟨hlow, hhigh, heven⟩
    refine ⟨abs_le.mpr ⟨by linarith, by linarith⟩, fun h => heven ?_⟩
    obtain h | h := abs_eq (by norm_num) |>.mp h
    · exact .inr (by linarith)
    · exact .inl (by linarith)

end Nearest

theorem even_halfEven {num den : ℕ} (hden : 0 < den)
    (h : 2 * num + den ≤ 2 * (halfEven num den * den) ∨
    2 * (halfEven num den * den) + den ≤ 2 * num) : Even (halfEven num den) := by
  have hmod := Nat.div_add_mod' num den
  have hlt := Nat.mod_lt num hden
  unfold halfEven at h ⊢
  dsimp only at h ⊢
  split at h <;> rename_i hlow
  · omega
  · rw [if_neg hlow]
    split at h <;> rename_i hhigh
    · rw [Nat.add_mul] at h
      omega
    · rw [if_neg hhigh, Nat.even_iff]
      omega

/-- The rounded quotient is the nearest integer. -/
theorem nearest_halfEven (num : ℕ) {den : ℕ} (h : 0 < den) :
    Nearest (num / den) (halfEven num den) := by
  have hden : (0 : ℚ) < den := by exact_mod_cast h
  have hle : (2 * (halfEven num den * den) : ℚ) ≤ 2 * num + den := by
    exact_mod_cast (halfEven_near h).1
  have hge : (2 * num : ℚ) ≤ 2 * (halfEven num den * den) + den := by
    exact_mod_cast (halfEven_near h).2
  refine Nearest.iff_halves.mpr ⟨?_, ?_, ?_⟩
  · push_cast
    rw [le_div_iff₀ hden]
    linarith
  · push_cast
    rw [div_le_iff₀ hden]
    linarith
  · push_cast
    rw [le_div_iff₀ hden, div_le_iff₀ hden]
    intro htie
    have htie : 2 * num + den ≤ 2 * (halfEven num den * den) ∨
        2 * (halfEven num den * den) + den ≤ 2 * num := by
      obtain h | h := htie
      · left
        have : (2 * num + den : ℚ) ≤ 2 * (halfEven num den * den) := by linarith
        exact_mod_cast this
      · right
        have : (2 * (halfEven num den * den) + den : ℚ) ≤ 2 * num := by linarith
        exact_mod_cast this
    exact_mod_cast even_halfEven h htie

theorem exists_nearest (q : ℚ) : ∃ n, Nearest q n := by
  have hdiv := Rat.num_div_den q
  have habs : (q.num.natAbs : ℚ) = ((|q.num| : ℤ) : ℚ) := Nat.cast_natAbs q.num
  have hnear := nearest_halfEven q.num.natAbs q.den_pos
  obtain hneg | hpos := lt_or_ge q.num 0
  · rw [habs, abs_of_neg hneg, Int.cast_neg, neg_div, hdiv] at hnear
    exact ⟨_, neg_neg q ▸ hnear.neg⟩
  · rw [habs, abs_of_nonneg hpos, hdiv] at hnear
    exact ⟨_, hnear⟩

theorem cast_twoTo (n : ℕ) : ((twoTo n : ℕ) : ℚ) = 2 ^ n := Nat.cast_pow 2 n

namespace BinaryView

/-- The number that a finite float is. -/
def value? : BinaryView → Option ℚ
  | finite negative m e => some (signed negative m * 2 ^ e)
  | _ => none

theorem nearest_signed {negative : Bool} {q : ℚ} {n : ℕ} (h : Nearest q n) :
    Nearest (if negative then -q else q) (signed negative n) := by
  unfold signed
  split
  · exact h.neg
  · exact h

theorem nearest_nearest (negative : Bool) (m : ℕ) (e : ℤ) :
    Nearest (signed negative m * 2 ^ e) (nearest negative m e) := by
  have hsign : (signed negative m : ℚ) * 2 ^ e =
      if negative then -((m : ℚ) * 2 ^ e) else m * 2 ^ e := by
    unfold signed
    split
    · push_cast
      ring
    · rfl
  rw [hsign]
  refine nearest_signed ?_
  split
  · next he =>
    have hvalue : (m : ℚ) * 2 ^ e = ((m * twoTo e.toNat : ℕ) : ℤ) := by
      obtain ⟨n, rfl⟩ := Int.eq_ofNat_of_zero_le he
      rw [zpow_natCast, Int.toNat_natCast, Int.cast_natCast, Nat.cast_mul, cast_twoTo]
    rw [hvalue]
    exact Nearest.intCast _
  · next he =>
    have hvalue : (m : ℚ) * 2 ^ e = m / (twoTo (-e).toNat : ℕ) := by
      obtain ⟨n, rfl⟩ : ∃ n : ℕ, e = -n := ⟨(-e).toNat, by omega⟩
      rw [neg_neg, Int.toNat_natCast, zpow_neg, zpow_natCast, div_eq_mul_inv, cast_twoTo]
    rw [hvalue]
    exact nearest_halfEven m (twoTo_pos _)

end BinaryView

theorem toInt_clampInt64 {n : ℤ} (h : FitsInt64 n) : (clampInt64 n).toInt = n := by
  obtain ⟨hlow, hhigh⟩ := h
  unfold clampInt64
  rw [if_neg (Int.not_lt.mpr hlow), if_neg (Int.not_lt.mpr hhigh)]
  unfold minInt64 at hlow
  unfold maxInt64 at hhigh
  exact Int64.toInt_ofInt_of_le (by omega) (by omega)

/-! ## Doubles of decimals -/

/-- A half-integer that is not a decimal of some places is at least a unit of the last
place away. -/
theorem unit_le_of_ne_half {a s : ℕ} (hs : s ≠ 0) {z : ℤ} (hne : (a : ℚ) / 10 ^ s ≠ z / 2) :
    1 / 10 ^ s ≤ |(a : ℚ) / 10 ^ s - z / 2| := by
  obtain ⟨p, rfl⟩ := Nat.exists_eq_succ_of_ne_zero hs
  have hpow : (0 : ℚ) < 10 ^ (p + 1) := by positivity
  have hdiff : (a : ℚ) / 10 ^ (p + 1) - z / 2 = ((a - z * 5 * 10 ^ p : ℤ) : ℚ) / 10 ^ (p + 1) := by
    rw [pow_succ]
    push_cast
    field_simp
    ring
  have hnonzero : (a - z * 5 * 10 ^ p : ℤ) ≠ 0 := by
    intro hzero
    rw [hzero, Int.cast_zero, zero_div, sub_eq_zero] at hdiff
    exact hne hdiff
  rw [hdiff, abs_div, abs_of_pos hpow]
  have hone : (1 : ℚ) ≤ |((a - z * 5 * 10 ^ p : ℤ) : ℚ)| := by
    exact_mod_cast Int.one_le_abs hnonzero
  gcongr

/-- A float nearest to a decimal is on the same side of every half-integer. -/
theorem same_side {a s : ℕ} (ha : a < 2 ^ 53) {r : ℕ} {k : ℤ}
    (h : BinaryView.Rounded r k (a / 10 ^ s)) (z : ℤ) :
    ((a : ℚ) / 10 ^ s < z / 2 → (r : ℚ) * 2 ^ k < z / 2) ∧
    (z / 2 < (a : ℚ) / 10 ^ s → z / 2 < (r : ℚ) * 2 ^ k) ∧
      ((a : ℚ) / 10 ^ s = z / 2 → (r : ℚ) * 2 ^ k = z / 2) := by
  have ha : (a : ℚ) < 2 ^ 53 := by exact_mod_cast ha
  obtain ⟨hnear, hlow⟩ := id h
  obtain rfl | hs := eq_or_ne s 0
  · rw [pow_zero, div_one] at h ⊢
    rw [h.eq_of_grid (z := a) (j := 0) (by simp) (by simpa using ha)]
    exact ⟨id, id, id⟩
  · have hten : (10 : ℚ) ≤ 10 ^ s := by
      calc (10 : ℚ) = 10 ^ 1 := (pow_one _).symm
        _ ≤ 10 ^ s := pow_le_pow_right₀ (by norm_num) (Nat.one_le_iff_ne_zero.mpr hs)
    have hpow : (0 : ℚ) < 10 ^ s := by positivity
    have hclose : |r * 2 ^ k - (a : ℚ) / 10 ^ s| < 1 / 10 ^ s := by
      have hunit : (2 : ℚ) ^ k / 2 < 1 / 10 ^ s := by
        rw [lt_div_iff₀ hpow]
        rw [le_div_iff₀ hpow] at hlow
        linarith
      linarith
    refine ⟨fun hz => ?_, fun hz => ?_, fun hz => ?_⟩
    · have hfar := unit_le_of_ne_half hs hz.ne
      rw [abs_of_neg (by linarith)] at hfar
      linarith [(abs_lt.mp hclose).2]
    · have hfar := unit_le_of_ne_half hs hz.ne'
      rw [abs_of_pos (by linarith)] at hfar
      linarith [(abs_lt.mp hclose).1]
    · rw [← hz]
      refine h.eq_of_grid (z := z) (j := -1) (by rw [hz, zpow_neg_one]; rfl) ?_
      rw [div_lt_iff₀ hpow, zpow_neg_one]
      linarith

theorem nearest_of_rounded {a s : ℕ} (ha : a < 2 ^ 53) {r : ℕ} {k : ℤ}
    (h : BinaryView.Rounded r k (a / 10 ^ s)) {n : ℤ} (hn : Nearest (r * 2 ^ k) n) :
    Nearest (a / 10 ^ s) n := by
  obtain ⟨hlow, hhigh, htie⟩ := Nearest.iff_halves.mp hn
  obtain ⟨hlow₁, hlow₂, hlow₃⟩ := same_side ha h (2 * n - 1)
  obtain ⟨hhigh₁, hhigh₂, hhigh₃⟩ := same_side ha h (2 * n + 1)
  refine Nearest.iff_halves.mpr ⟨?_, ?_, ?_⟩
  · exact not_lt.mp fun hlt => not_lt.mpr hlow (hlow₁ hlt)
  · exact not_lt.mp fun hlt => not_lt.mpr hhigh (hhigh₂ hlt)
  · rintro (hle | hle)
    · refine htie (.inl ?_)
      obtain hlt | heq := hle.lt_or_eq
      · exact (hlow₁ hlt).le
      · exact (hlow₃ heq).le
    · refine htie (.inr ?_)
      obtain hlt | heq := hle.lt_or_eq
      · exact (hhigh₂ hlt).le
      · exact (hhigh₃ heq.symm).ge

namespace Decimal

/-- A decimal whose digits and whose unit are both floats as they are. -/
structure OfFloats (d : Decimal) : Prop where
  digits_lt : d.digits.natAbs < 2 ^ 53
  scale_nonneg : 0 ≤ d.scale
  scale_le : d.scale ≤ 22

theorem isZero_toFloat : ∀ n < 23, Value.isZero (toFloat ⟨0, (n : ℕ)⟩) = true := by
  decide

theorem value_eq {d : Decimal} (hs : 0 ≤ d.scale) : d.value =
    if (BinaryView.signOf d.digits == .negative) =
      true then -((d.digits.natAbs : ℚ) / 10 ^ d.scale.toNat)
    else d.digits.natAbs / 10 ^ d.scale.toNat := by
  obtain ⟨digits, scale⟩ := d
  obtain ⟨n, rfl⟩ := Int.eq_ofNat_of_zero_le hs
  have habs : (digits.natAbs : ℚ) = ((|digits| : ℤ) : ℚ) := Nat.cast_natAbs digits
  unfold value BinaryView.signOf
  dsimp only
  rw [Int.toNat_natCast, zpow_neg, zpow_natCast, ← div_eq_mul_inv, habs]
  by_cases hneg : digits < 0
  · rw [if_pos hneg, if_pos (by decide), abs_of_neg hneg, Int.cast_neg, neg_div, neg_neg]
  · rw [if_neg hneg, if_neg (by decide), abs_of_nonneg (Int.not_lt.mp hneg)]

theorem nearest_roundToInt64 {x : Float} {negative : Bool} {m : ℕ} {e : ℤ}
    (hx : BinaryView.ofFloat x = .finite negative m e) {q : ℚ} (hq : |q| < 2 ^ 53)
    (h : ∀ n, Nearest (BinaryView.signed negative m * 2 ^ e) n → Nearest q n) :
    Nearest q (roundToInt64 x).toInt := by
  have hnear := h _ (BinaryView.nearest_nearest negative m e)
  have hround : roundToInt64 x = clampInt64 (BinaryView.nearest negative m e) := by
    unfold roundToInt64
    rw [hx]
  generalize BinaryView.nearest negative m e = n at hnear hround
  have hsmall : |(n : ℚ)| ≤ 2 ^ 53 + 1 := by
    calc |(n : ℚ)| = |q - (q - n)| := by rw [sub_sub_cancel]
      _ ≤ |q| + |q - n| := abs_sub _ _
      _ ≤ 2 ^ 53 + 1 := by linarith [hnear.near]
  have hsmall : |n| ≤ 2 ^ 53 + 1 := by exact_mod_cast hsmall
  rw [abs_le] at hsmall
  rw [hround, toInt_clampInt64 ⟨by unfold minInt64; omega, by unfold maxInt64; omega⟩]
  exact hnear

/-- Rounding the double of such a decimal rounds the decimal. -/
theorem OfFloats.nearest {d : Decimal} (h : d.OfFloats) :
    Nearest d.value (roundToInt64 d.toFloat).toInt := by
  obtain ⟨hdigits, hscale, hscale'⟩ := h
  have hvalue := value_eq hscale
  have hsmall : |d.value| < 2 ^ 53 := by
    have hpow : (1 : ℚ) ≤ 10 ^ d.scale.toNat := one_le_pow₀ (by norm_num)
    have hdigits : (d.digits.natAbs : ℚ) < 2 ^ 53 := by exact_mod_cast hdigits
    have hquotient : (d.digits.natAbs : ℚ) / 10 ^ d.scale.toNat < 2 ^ 53 :=
      (div_le_self (Nat.cast_nonneg _) hpow).trans_lt hdigits
    have hnonneg : (0 : ℚ) ≤ d.digits.natAbs / 10 ^ d.scale.toNat := by positivity
    rw [hvalue]
    split
    · rwa [abs_neg, abs_of_nonneg hnonneg]
    · rwa [abs_of_nonneg hnonneg]
  by_cases hzero : d.digits = 0
  · have hfloat : Value.isZero d.toFloat = true := by
      obtain ⟨digits, scale⟩ := d
      obtain ⟨n, rfl⟩ := Int.eq_ofNat_of_zero_le hscale
      dsimp only at hzero hscale'
      rw [hzero]
      exact isZero_toFloat n (by omega)
    unfold Value.isZero at hfloat
    split at hfloat
    · next negative e hx =>
      refine nearest_roundToInt64 hx hsmall fun n hn => ?_
      have hq : d.value = BinaryView.signed negative 0 * 2 ^ e := by
        rw [value, hzero]
        cases negative <;> simp [BinaryView.signed]
      rwa [hq]
    · cases hfloat
  · obtain ⟨m, e, hm, hu, -, -, -, r, k, hunits, hrounded⟩ :=
      BinaryView.nearby_toFloat hzero hdigits ⟨hscale, hscale'⟩
    have hview : BinaryView.ofFloat d.toFloat =
        .finite (BinaryView.signOf d.digits == .negative) m e := by
      rw [BinaryView.ofFloat_eq, hu, BinaryView.ofParts]
    refine nearest_roundToInt64 hview hsmall fun n hn => ?_
    rw [hvalue]
    unfold BinaryView.signed at hn
    split at hn <;> rename_i hsign
    · rw [if_pos hsign]
      rw [Int.cast_neg, Int.cast_natCast, neg_mul, hunits] at hn
      have hn := hn.neg
      rw [neg_neg] at hn
      have hn := (nearest_of_rounded hdigits hrounded hn).neg
      rwa [neg_neg] at hn
    · rw [if_neg hsign]
      rw [Int.cast_natCast, hunits] at hn
      exact nearest_of_rounded hdigits hrounded hn

end Decimal

/-! ## Ranges -/

namespace DataType

/-- Whether an integer is one of the type's. -/
def Has (t : DataType) (n : ℤ) : Prop := t.range.1 ≤ n ∧ n ≤ t.range.2

variable {t : DataType} {n : ℤ}

/-- No type has an integer past sixty-four bits. -/
theorem Has.fits (h : t.Has n) : FitsInt64 n := by
  obtain ⟨hlow, hhigh⟩ := h
  unfold FitsInt64 minInt64 maxInt64
  cases t <;> simp only [range] at hlow hhigh <;> omega

theorem has_int64 (i : Int64) : int64.Has i.toInt := by
  have hlow := i.le_toInt
  have hhigh := i.toInt_lt
  exact ⟨by simpa [range] using hlow, by simp only [range]; omega⟩

theorem has_zero (ht : t.isIntegral = true) : t.Has 0 := by
  unfold Has
  cases t <;> first | decide | cases ht

theorem has_one (ht : t.isIntegral = true) : t.Has 1 := by
  unfold Has
  cases t <;> first | decide | cases ht

theorem has_maxInt64 (ht : t.isIntegral = true) : t.Has maxInt64 ↔ t = int64 := by
  unfold Has
  cases t <;> first | decide | cases ht

end DataType

/-! ## Coercion -/

namespace Value

variable {v : Value} {t : DataType} {q : ℚ} {n : ℤ}

/-- The number that a value is, for booleans, integers, finite floats and decimals. -/
def number? : Value → Option ℚ
  | bool b => some (if b then 1 else 0)
  | int i => some i.toInt
  | float x => (BinaryView.ofFloat x).value?
  | decimal d => some d.value
  | _ => none

/-- What is to come of an integer as one of a type: itself, or a refusal where the type does not
have it. -/
structure Gives (r : Except TypeFault Value) (t : DataType) (n : ℤ) : Prop where
  ok : t.Has n → ∃ i : Int64, i.toInt = n ∧ r = .ok (int i)
  refused : ¬t.Has n → ∃ shown, r = .error (.outOfRange shown t.name)

/-- Coercion of a number `q` to an integral type, as it should be: by the nearest integer. -/
def Coerces (v : Value) (t : DataType) (q : ℚ) : Prop := ∃ n, Nearest q n ∧ Gives (v.coerce t) t n

/-- Where coercion goes wrong: a float of `2 ^ 63` passes for an integer of sixty-four bits, and the
double in between brings a decimal to another integer than the nearest, one of them in the range of
the type. -/
def Misrounds (v : Value) (t : DataType) (q : ℚ) : Prop :=
  match v with
  | float _ => t = .int64 ∧ Nearest q (maxInt64 + 1)
  | decimal d => ∃ n, Nearest q n ∧ n ≠ (roundToInt64 d.toFloat).toInt ∧
      (t.Has n ∨ t.Has (roundToInt64 d.toFloat).toInt)
  | _ => False

theorem coerces_iff_gives (h : Nearest q n) : v.Coerces t q ↔ Gives (v.coerce t) t n := by
  refine ⟨?_, fun hg => ⟨n, h, hg⟩⟩
  rintro ⟨m, hm, hg⟩
  rwa [← hm.unique h]

theorem inRange_of_has {i : Int64} (h : t.Has i.toInt) : inRange i t = .ok (int i) := if_pos h

theorem inRange_of_not_has {i : Int64} (h : ¬t.Has i.toInt) :
    inRange i t = .error (.outOfRange (toString i.toInt) t.name) := if_neg h

theorem gives_inRange_iff (i : Int64) :
    Gives (inRange i t) t n ↔ ¬(n ≠ i.toInt ∧ (t.Has n ∨ t.Has i.toInt)) := by
  by_cases hi : t.Has i.toInt
  · rw [inRange_of_has hi]
    constructor
    · rintro ⟨hok, hrefused⟩ ⟨hne, -⟩
      by_cases hn : t.Has n
      · obtain ⟨j, rfl, hj⟩ := hok hn
        cases hj
        exact hne rfl
      · obtain ⟨shown, hshown⟩ := hrefused hn
        cases hshown
    · intro h
      obtain rfl : n = i.toInt := by
        by_contra hne
        exact h ⟨hne, .inr hi⟩
      exact ⟨fun _ => ⟨i, rfl, rfl⟩, fun hn => absurd hi hn⟩
  · rw [inRange_of_not_has hi]
    constructor
    · rintro ⟨hok, -⟩ ⟨-, hn | hn⟩
      · obtain ⟨j, -, hj⟩ := hok hn
        cases hj
      · exact hi hn
    · intro h
      refine ⟨fun hn => absurd ⟨?_, .inl hn⟩ h, fun _ => ⟨_, rfl⟩⟩
      rintro rfl
      exact hi hn

theorem gives_inRange (i : Int64) : Gives (inRange i t) t i.toInt :=
  (gives_inRange_iff i).mpr fun h => h.1 rfl

theorem coerces_bool (ht : t.isIntegral = true) (b : Bool) :
    (bool b).Coerces t (if b then 1 else 0) := by
  have hcoerce : (bool b).coerce t = .ok (int (if b then 1 else 0)) := if_pos ht
  cases b
  · exact ⟨0, by exact_mod_cast Nearest.intCast 0, fun _ => ⟨0, rfl, hcoerce⟩, fun h => absurd (DataType.has_zero ht) h⟩
  · exact ⟨1, by exact_mod_cast Nearest.intCast 1, fun _ => ⟨1, rfl, hcoerce⟩, fun h => absurd (DataType.has_one ht) h⟩

theorem coerces_int (ht : t.isIntegral = true) (i : Int64) : (int i).Coerces t i.toInt := by
  have hcoerce : (int i).coerce t = inRange i t := if_pos ht
  exact ⟨i.toInt, .intCast _, hcoerce ▸ gives_inRange i⟩

theorem coerces_float_iff (ht : t.isIntegral = true) {x : Float}
    (hq : (BinaryView.ofFloat x).value? = some q) :
    (float x).Coerces t q ↔ ¬(t = .int64 ∧ Nearest q (maxInt64 + 1)) := by
  have hcoerce : (float x).coerce t = integralOfFloat x t := if_pos ht
  rw [integralOfFloat] at hcoerce
  cases hx : BinaryView.ofFloat x with
  | nan => rw [hx] at hq; cases hq
  | infinite negative => rw [hx] at hq; cases hq
  | finite negative m e =>
    rw [hx] at hq hcoerce
    cases hq
    dsimp only at hcoerce
    have hnear := BinaryView.nearest_nearest negative m e
    rw [coerces_iff_gives hnear, hcoerce]
    generalize BinaryView.nearest negative m e = n at hnear
    by_cases hfits : FitsInt64 n
    · have hgives : Gives (inRange (clampInt64 n) t) t (clampInt64 n).toInt := gives_inRange _
      rw [toInt_clampInt64 hfits] at hgives
      obtain ⟨hlow, hhigh⟩ := hfits
      rw [if_neg (by omega)]
      refine iff_of_true hgives ?_
      rintro ⟨-, hmax⟩
      rw [hnear.unique hmax] at hhigh
      omega
    · have hnot : ¬t.Has n := fun h => hfits h.fits
      by_cases hmax : n = maxInt64 + 1
      · have hclamp : clampInt64 n = Int64.ofInt maxInt64 := by
          rw [hmax]
          rfl
        rw [if_neg (by rw [hmax]; decide), hclamp, gives_inRange_iff,
          show (Int64.ofInt maxInt64).toInt = maxInt64 from rfl, DataType.has_maxInt64 ht,
            or_iff_right hnot]
        refine not_congr ⟨fun h => ⟨h.2, hmax ▸ hnear⟩, fun h => ⟨by omega, h.1⟩⟩
      · rw [if_pos (by unfold FitsInt64 at hfits; omega)]
        refine iff_of_true ⟨fun h => absurd h hnot, fun _ => ⟨_, rfl⟩⟩ ?_
        rintro ⟨-, h⟩
        exact hmax (hnear.unique h)

theorem coerces_decimal_iff (ht : t.isIntegral = true) {d : Decimal} (h : Nearest d.value n) :
    (decimal d).Coerces t d.value ↔ ¬(n ≠ (roundToInt64 d.toFloat).toInt ∧
      (t.Has n ∨ t.Has (roundToInt64 d.toFloat).toInt)) := by
  have hcoerce : (decimal d).coerce t = inRange (roundToInt64 d.toFloat) t := if_pos ht
  rw [coerces_iff_gives h, hcoerce, gives_inRange_iff]

/-- **Coercion to an integral type takes the nearest integer and refuses what the type does not
have**, for every boolean, integer, finite float and decimal, except just where it misrounds; and
decimals whose digits and unit are floats as they are it coerces without exception. -/
theorem coerces_iff (ht : t.isIntegral = true) (hq : v.number? = some q) :
    (v.Coerces t q ↔ ¬v.Misrounds t q) ∧ ∀ d, v = decimal d → d.OfFloats → v.Coerces t q := by
  constructor
  · cases v with
    | bool b =>
      cases hq
      exact iff_of_true (coerces_bool ht b) not_false
    | int i =>
      cases hq
      exact iff_of_true (coerces_int ht i) not_false
    | float x => exact coerces_float_iff ht hq
    | decimal d =>
      cases hq
      obtain ⟨n, hn⟩ := exists_nearest d.value
      rw [coerces_decimal_iff ht hn]
      refine not_congr ⟨fun h => ⟨n, hn, h⟩, ?_⟩
      rintro ⟨m, hm, h⟩
      rwa [hn.unique hm]
    | _ => cases hq
  · rintro d rfl hd
    cases hq
    rw [coerces_decimal_iff ht hd.nearest]
    exact fun h => h.1 rfl

/-- Two and a half is coerced to the even neighbour. -/
theorem coerces_iff_half : (decimal ⟨25, 1⟩).Coerces .int32 (5 / 2) :=
  (coerces_iff rfl (by norm_num [number?, Decimal.value])).2 ⟨25, 1⟩ rfl ⟨by decide, by decide, by decide⟩

theorem coerce_decimal_int64 (d : Decimal) : ∃ i, (decimal d).coerce .int64 = .ok (int i) :=
  ⟨roundToInt64 d.toFloat, inRange_of_has (DataType.has_int64 _)⟩

theorem not_always_coerces :
    ¬∀ v t q, t.isIntegral = true → number? v = some q → v.Coerces t q := by
  intro h
  have hvalue : Decimal.value ⟨10000000000000000000, 0⟩ = ((10000000000000000000 : ℤ) : ℚ) := by
    norm_num [Decimal.value]
  have hcoerces := h (decimal ⟨10000000000000000000, 0⟩) .int64 _ rfl rfl
  rw [hvalue, coerces_iff_gives (Nearest.intCast _)] at hcoerces
  obtain ⟨i, hi⟩ := coerce_decimal_int64 ⟨10000000000000000000, 0⟩
  obtain ⟨shown, hshown⟩ := hcoerces.refused (by unfold DataType.Has; decide)
  rw [hi] at hshown
  cases hshown

end Value

end RecordMapper
