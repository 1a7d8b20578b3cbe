import RecordMapper.Decimal
import RecordMapper.Proofs.Floats

/-!
# Quotients of floats

Operations on floats are followed down to the numbers that they hold: a result is a float nearest to
the exact one, and it is the exact one where that has room in fifty-three bits.

1. `Holds` and `Nearby`: parts that hold a number as it is, and parts within half a unit of the
   last place.
2. `nearby_round`: rounding gives parts nearby; `Rounded.eq_of_grid` and `Nearby.holds`: when they
   are exact.
3. `nearby_mul` and `nearby_div`: the product and the quotient of numbers that are held.
4. `holds_ofInt` and `isTenTo_powerOfTen`: the integers and the powers of ten that floats hold.
5. `nearby_toFloat`: the float of a decimal whose digits and unit are held.
-/

namespace RecordMapper

open Float.Model UnpackedFloat

namespace BinaryView

/-! ## Parts near a number -/

/-- A number that the parts hold as it is, in fifty-three bits and far from the ends of the
exponents. -/
def Holds (u : UnpackedFloat) (s : Sign) (x : ℚ) : Prop :=
  ∃ m e h, u = .finite s m e h ∧ m.log2 = 52 ∧ -400 ≤ e ∧ e ≤ 400 ∧ (m : ℚ) * 2 ^ e = x

/-- Of the units `2 ^ k` a number holds `2 ^ 52` at least, and `r` of them are nearest to it. -/
structure Rounded (r : ℕ) (k : ℤ) (x : ℚ) : Prop where
  near : |r * 2 ^ k - x| ≤ 2 ^ k / 2
  full : 2 ^ 52 * 2 ^ k ≤ x

/-- The parts of a normal number within half a unit of its last place of another. -/
def Nearby (u : UnpackedFloat) (s : Sign) (x : ℚ) : Prop :=
  ∃ m e h, u = .finite s m e h ∧ m.log2 = 52 ∧ -1000 ≤ e ∧ e ≤ 900 ∧
    ∃ (r : ℕ) (k : ℤ), (m : ℚ) * 2 ^ e = r * 2 ^ k ∧ Rounded r k x

theorem nearby_round {s : Sign} {m : Nat} {e : Int} {a : Accuracy} {x : ℚ} (hm : 52 ≤ m.log2)
    (he : -900 ≤ e) (he' : e + (m.log2 - 52 : Nat) ≤ 890)
    (hx : Places (ExtendedMantissa.ofMantissaAndAccuracy m a) x) :
    Nearby (roundWithAccuracy Format.binary64 s m e a) s (x * 2 ^ e) := by
  obtain ⟨m', e', h, hround, hlog, hlow, hhigh, r, hvalue, hnear⟩ :=
    roundWithAccuracy_normal (s := s) (e := e) hm (by omega) hx
  have hm0 : m ≠ 0 := by
    rintro rfl
    exact absurd hm (by decide)
  have hk : (2 : ℚ) ^ (e + (m.log2 - 52 : Nat)) = 2 ^ (m.log2 - 52) * 2 ^ e := by
    rw [zpow_add₀ (by norm_num), zpow_natCast, mul_comm]
  have hpos : (0 : ℚ) < 2 ^ e := by positivity
  have hpos' : (0 : ℚ) < 2 ^ (m.log2 - 52) := by positivity
  refine ⟨m', e', h, hround, hlog, by omega, by omega, r, _, hvalue, ?_, ?_⟩
  · rw [hk]
    have : (r : ℚ) * (2 ^ (m.log2 - 52) * 2 ^ e) - x * 2 ^ e =
        (r - x / 2 ^ (m.log2 - 52)) * (2 ^ (m.log2 - 52) * 2 ^ e) := by
      field_simp
    rw [this, abs_mul, abs_of_pos (mul_pos hpos' hpos)]
    calc _ ≤ 1 / 2 * ((2 : ℚ) ^ (m.log2 - 52) * 2 ^ e) := by gcongr
      _ = _ := by ring
  · have hmx := hx.mantissa_le
    rw [mantissa_ofMantissaAndAccuracy] at hmx
    have hself : (2 : ℚ) ^ 52 * 2 ^ (m.log2 - 52) ≤ m := by
      rw [← pow_add, Nat.add_sub_cancel' hm]
      exact_mod_cast Nat.log2_self_le hm0
    rw [hk, ← mul_assoc]
    gcongr
    exact hself.trans hmx

/-- A number on a grid that the last place reaches is not rounded. -/
theorem Rounded.eq_of_grid {x : ℚ} {r : ℕ} {k : ℤ} (h : Rounded r k x) {z j : ℤ}
    (hx : x = z * 2 ^ j) (hlt : x < 2 ^ 53 * 2 ^ j) : (r : ℚ) * 2 ^ k = x := by
  obtain ⟨hnear, hlow⟩ := h
  have hkj : k ≤ j := by
    have h : (2 : ℚ) ^ 52 * 2 ^ k < 2 ^ 53 * 2 ^ j := hlow.trans_lt hlt
    have h : (2 : ℚ) ^ k < 2 ^ (j + 1) := by
      rw [zpow_add₀ (by norm_num), zpow_one]
      linarith
    have := (zpow_lt_zpow_iff_right₀ (by norm_num : (1 : ℚ) < 2)).mp h
    omega
  obtain ⟨n, rfl⟩ : ∃ n : ℕ, j = k + n := ⟨(j - k).toNat, by omega⟩
  have hpos : (0 : ℚ) < 2 ^ k := by positivity
  have hz : x = ((z * 2 ^ n : ℤ) : ℚ) * 2 ^ k := by
    rw [hx, zpow_add₀ (by norm_num), zpow_natCast]
    push_cast
    ring
  rw [hz, ← sub_mul, abs_mul, abs_of_pos hpos] at hnear
  have hhalf : |((r : ℤ) : ℚ) - ((z * 2 ^ n : ℤ) : ℚ)| < 1 := by
    rw [Int.cast_natCast]
    by_contra hge
    nlinarith [not_lt.mp hge]
  rw [← Int.cast_sub, ← Int.cast_abs, ← Int.cast_one, Int.cast_lt, Int.abs_lt_one_iff,
    sub_eq_zero] at hhalf
  rw [hz, ← hhalf, Int.cast_natCast]

/-- An integer below `2 ^ 53` is held as it is. -/
theorem Nearby.holds {u : UnpackedFloat} {s : Sign} {n : ℕ} (h : Nearby u s n) (hpos : 0 < n)
    (hlt : n < 2 ^ 53) : Holds u s n := by
  obtain ⟨m, e, hm, hu, hlog, -, -, r, k, hvalue, hrounded⟩ := h
  have hlt : (n : ℚ) < 2 ^ 53 := by exact_mod_cast hlt
  have hone : (1 : ℚ) ≤ n := by exact_mod_cast hpos
  rw [hrounded.eq_of_grid (z := n) (j := 0) (by simp) (by simpa using hlt)] at hvalue
  obtain ⟨hlow, hhigh⟩ := (Nat.log2_eq_iff (Nat.ne_of_gt hm)).mp hlog
  have hlow : (2 ^ 52 : ℚ) ≤ m := by exact_mod_cast hlow
  have hhigh : (m : ℚ) < 2 ^ 53 := by exact_mod_cast hhigh
  have hunit : (0 : ℚ) < 2 ^ e := by positivity
  have hupper : (2 : ℚ) ^ e < 2 ^ (1 : ℤ) := by
    have : (2 : ℚ) ^ 52 * 2 ^ e ≤ m * 2 ^ e := by gcongr
    rw [zpow_one]
    linarith
  have hlower : (2 : ℚ) ^ (-53 : ℤ) < 2 ^ e := by
    have : (m : ℚ) * 2 ^ e < 2 ^ 53 * 2 ^ e := by gcongr
    rw [zpow_neg, inv_lt_iff_one_lt_mul₀' (by positivity), zpow_ofNat]
    linarith
  have he := (zpow_lt_zpow_iff_right₀ (by norm_num : (1 : ℚ) < 2)).mp hupper
  have he' := (zpow_lt_zpow_iff_right₀ (by norm_num : (1 : ℚ) < 2)).mp hlower
  exact ⟨m, e, hm, hu, hlog, by omega, by omega, hvalue⟩

theorem Holds.unpack_pack {u : UnpackedFloat} {s : Sign} {x : ℚ} (h : Holds u s x) :
    (Float.Model.pack u).unpack = u := by
  obtain ⟨m, e, hm, rfl, hlog, hlow, hhigh, -⟩ := h
  exact unpack_pack_normal s hm hlog (by omega) (by omega)

theorem Nearby.unpack_pack {u : UnpackedFloat} {s : Sign} {x : ℚ} (h : Nearby u s x) :
    (Float.Model.pack u).unpack = u := by
  obtain ⟨m, e, hm, rfl, hlog, hlow, hhigh, -⟩ := h
  exact unpack_pack_normal s hm hlog (by omega) (by omega)

/-! ## Products and quotients -/

theorem nearby_mul {u v : UnpackedFloat} {s s' : Sign} {x y : ℚ} (hu : Holds u s x)
    (hv : Holds v s' y) :
    Nearby (UnpackedFloat.mul Format.binary64 u v) (s * s') (x * y) := by
  obtain ⟨m, e, hm, rfl, hlog, hlow, hhigh, rfl⟩ := hu
  obtain ⟨m', e', hm', rfl, hlog', hlow', hhigh', rfl⟩ := hv
  obtain ⟨hmlow, hmhigh⟩ := (Nat.log2_eq_iff (Nat.ne_of_gt hm)).mp hlog
  obtain ⟨hmlow', hmhigh'⟩ := (Nat.log2_eq_iff (Nat.ne_of_gt hm')).mp hlog'
  have hne : m * m' ≠ 0 := Nat.ne_of_gt (Nat.mul_pos hm hm')
  have hprod : 104 ≤ (m * m').log2 := (Nat.le_log2 hne).mpr (by
    rw [show 104 = 52 + 52 from rfl, Nat.pow_add]
    exact Nat.mul_le_mul hmlow hmlow')
  have hprod' : (m * m').log2 < 106 := (Nat.log2_lt hne).mpr (by
    rw [show 106 = 52 + 1 + (52 + 1) from rfl, Nat.pow_add]
    exact Nat.mul_lt_mul'' hmhigh hmhigh')
  have hnear := nearby_round (s := s * s') (m := m * m') (e := e + e')
    (by omega) (by omega) (by omega) (places_exact _)
  have hvalue : ((m * m' : ℕ) : ℚ) * 2 ^ (e + e') = m * 2 ^ e * (m' * 2 ^ e') := by
    rw [zpow_add₀ (by norm_num), Nat.cast_mul]
    ring
  rw [hvalue] at hnear
  exact hnear

/-- The quotient of two floats is a float nearest to the quotient of what they hold. -/
theorem nearby_div {u v : UnpackedFloat} {s s' : Sign} {x y : ℚ} (hu : Holds u s x)
    (hv : Holds v s' y) :
    Nearby (UnpackedFloat.div Format.binary64 u v) (s / s') (x / y) := by
  obtain ⟨m, e, hm, rfl, hlog, hlow, hhigh, rfl⟩ := hu
  obtain ⟨m', e', hm', rfl, hlog', hlow', hhigh', rfl⟩ := hv
  obtain ⟨hmlow, hmhigh⟩ := (Nat.log2_eq_iff (Nat.ne_of_gt hm)).mp hlog
  obtain ⟨hmlow', hmhigh'⟩ := (Nat.log2_eq_iff (Nat.ne_of_gt hm')).mp hlog'
  -- the dividend is shifted far enough for the quotient to have all the bits of a mantissa
  have htarget : min (e - e') (Format.binary64.targetExponent (totalExponent m e - totalExponent m' e')) =
      e - e' - 53 := by
    show min _ (max ((((m.log2 : Int) + 1 + e) - ((m'.log2 : Int) + 1 + e')) - (53 : Nat)) (-1074)) = _
    omega
  have hshift : (e - e' - (e - e' - 53)).toNat = 53 := by omega
  have hcore : divCore Format.binary64 m e m' e' =
      (m <<< 53 / m', e - e' - 53, accuracyOfFraction (m <<< 53 % m') m') := by
    unfold divCore
    dsimp only
    rw [htarget, hshift]
  rw [Nat.shiftLeft_eq] at hcore
  have hlower : 2 ^ 52 ≤ m * 2 ^ 53 / m' := (Nat.le_div_iff_mul_le hm').mpr (by omega)
  have hupper : m * 2 ^ 53 / m' < 2 ^ 54 := (Nat.div_lt_iff_lt_mul hm').mpr (by omega)
  have hne : m * 2 ^ 53 / m' ≠ 0 := by omega
  have hlog52 : 52 ≤ (m * 2 ^ 53 / m').log2 := (Nat.le_log2 hne).mpr hlower
  have hlog54 : (m * 2 ^ 53 / m').log2 < 54 := (Nat.log2_lt hne).mpr hupper
  have hnear := nearby_round (s := s / s') (e := e - e' - 53) hlog52 (by omega) (by omega)
    (places_quotient (m * 2 ^ 53) hm')
  have hvalue : ((m * 2 ^ 53 : ℕ) : ℚ) / m' * 2 ^ (e - e' - 53) = m * 2 ^ e / (m' * 2 ^ e') := by
    rw [zpow_sub₀ (by norm_num), zpow_sub₀ (by norm_num), Nat.cast_mul]
    push_cast
    field_simp
  rw [hvalue] at hnear
  show Nearby (roundWithAccuracy _ _ (divCore Format.binary64 m e m' e').1
    (divCore Format.binary64 m e m' e').2.1 (divCore Format.binary64 m e m' e').2.2) _ _
  rw [hcore]
  exact hnear

/-! ## Integers and powers of ten -/

/-- Whether the parts are those of a power of ten, in fifty-three bits. -/
def isTenTo (n : Nat) : UnpackedFloat → Bool
  | .finite .positive m e _ => m.log2 == 52 && decide (-400 ≤ e) && decide (e ≤ 400) &&
    m * 2 ^ e.toNat == 10 ^ n * 2 ^ (-e).toNat
  | _ => false

theorem isTenTo_powerOfTen : ∀ n < 23, isTenTo n (Decimal.powerOfTen n).toModel.unpack = true := by
  decide

theorem isTenTo_first :
    isTenTo 0 (getElem Float.exactlyRepresentablePowersOfTen 0 (by decide)).toModel.unpack = true := by
  decide

theorem holds_of_isTenTo {n : Nat} {u : UnpackedFloat} (h : isTenTo n u = true) :
    Holds u .positive (10 ^ n) := by
  unfold isTenTo at h
  split at h
  · next _ m e hm =>
    simp only [Bool.and_eq_true, beq_iff_eq, decide_eq_true_eq] at h
    obtain ⟨⟨⟨hlog, hlow⟩, hhigh⟩, hvalue⟩ := h
    refine ⟨m, e, hm, rfl, hlog, hlow, hhigh, ?_⟩
    have he : e = (e.toNat : ℤ) - ((-e).toNat : ℤ) := by omega
    have hcast := congrArg (Nat.cast : ℕ → ℚ) hvalue
    push_cast at hcast
    rw [he, zpow_sub₀ (by norm_num), zpow_natCast, zpow_natCast, ← mul_div_assoc, hcast]
    field_simp
  · cases h

theorem log2_shiftLeft {n : Nat} (hn : 0 < n) (k : Nat) : (n <<< k).log2 = n.log2 + k := by
  obtain ⟨hlow, hhigh⟩ := (Nat.log2_eq_iff (Nat.ne_of_gt hn)).mp rfl
  have hk : 0 < 2 ^ k := Nat.two_pow_pos k
  rw [Nat.shiftLeft_eq]
  refine (Nat.log2_eq_iff (Nat.ne_of_gt (Nat.mul_pos hn hk))).mpr ⟨?_, ?_⟩
  · rw [Nat.pow_add]
    exact Nat.mul_le_mul_right _ hlow
  · rw [show n.log2 + k + 1 = n.log2 + 1 + k by omega, Nat.pow_add]
    exact Nat.mul_lt_mul_of_pos_right hhigh hk

theorem holds_uint64 {n : Nat} (hpos : 0 < n) (h : n < 2 ^ 53) :
    Holds n.toUInt64.toFloat.toModel.unpack .positive n := by
  have hn : n.toUInt64.toNat = n := by
    rw [Nat.toUInt64, UInt64.toNat_ofNat']
    exact Nat.mod_eq_of_lt (by omega)
  have hlog : n.log2 < 53 := (Nat.log2_lt (by omega)).mpr h
  have hround : Holds (UnpackedFloat.ofUInt64 Format.binary64 n.toUInt64) .positive n := by
    have hshift : ((0 : Int) - Format.binary64.targetExponent (totalExponent n 0)).toNat =
        52 - n.log2 := by
      show ((0 : Int) - max (((n.log2 : Int) + 1 + 0) - (53 : Nat)) (-1074)).toNat = _
      omega
    have hlog' : (n <<< (52 - n.log2)).log2 = 52 := by
      rw [log2_shiftLeft hpos]
      omega
    have hnear := nearby_round (s := .positive) (m := n <<< (52 - n.log2))
      (e := -(52 - n.log2 : Nat))
      (by omega) (by omega) (by omega) (places_exact _)
    have hvalue : ((n <<< (52 - n.log2) : ℕ) : ℚ) * 2 ^ (-((52 - n.log2 : ℕ) : ℤ)) = n := by
      rw [Nat.shiftLeft_eq, zpow_neg, zpow_natCast, Nat.cast_mul, Nat.cast_pow, Nat.cast_ofNat]
      field_simp
    rw [hvalue] at hnear
    have hu : UnpackedFloat.ofUInt64 Format.binary64 n.toUInt64 =
      roundWithAccuracy Format.binary64 .positive
        (n <<< (52 - n.log2)) (-(52 - n.log2 : Nat)) .exact := by
      unfold UnpackedFloat.ofUInt64 UnpackedFloat.ofNat UnpackedFloat.ofInt UnpackedFloat.normalize
      rw [hn]
      have hc : compare (n : Int) 0 = .gt := by
        rw [compare_gt_iff_gt]
        omega
      rw [hc]
      unfold UnpackedFloat.round decreaseExponent
      dsimp only
      rw [Int.toNat_natCast, hshift, Int.zero_sub]
    rw [hu]
    exact hnear.holds hpos h
  have hpack := hround.unpack_pack
  show Holds (Float.Model.pack _).unpack _ _
  rw [hpack]
  exact hround

theorem holds_ofNat {n : Nat} (hpos : 0 < n) (h : n < 2 ^ 53) :
    Holds (Float.ofNat n).toModel.unpack .positive n := by
  have hmul := nearby_mul (holds_uint64 hpos h) (holds_of_isTenTo isTenTo_first)
  rw [pow_zero, mul_one] at hmul
  have hprod := hmul.holds hpos h
  have hmodel : (Float.ofNat n).toModel = Float.Model.pack (UnpackedFloat.mul Format.binary64
      n.toUInt64.toFloat.toModel.unpack
      (getElem Float.exactlyRepresentablePowersOfTen 0 (by decide)).toModel.unpack) := by
    show (Float.ofScientific n false 0).toModel = _
    unfold Float.ofScientific
    rw [dif_pos ⟨h, by decide⟩]
    rfl
  rw [hmodel, hprod.unpack_pack]
  exact hprod

def signOf (i : Int) : Sign := if i < 0 then .negative else .positive

theorem holds_ofInt {i : Int} (hi : i ≠ 0) (h : i.natAbs < 2 ^ 53) :
    Holds (Float.ofInt i).toModel.unpack (signOf i) i.natAbs := by
  cases i with
  | ofNat n =>
    have hsign : ¬Int.ofNat n < 0 := Int.not_lt.mpr (Int.natCast_nonneg n)
    rw [signOf, if_neg hsign]
    exact holds_ofNat (Nat.pos_of_ne_zero fun hn => hi (congrArg Int.ofNat hn)) h
  | negSucc n =>
    obtain ⟨m, e, hm, hu, hlog, hlow, hhigh, hvalue⟩ := holds_ofNat (Nat.succ_pos n) h
    rw [signOf, if_pos (Int.negSucc_lt_zero n)]
    show Holds (Float.Model.pack (Float.ofNat (n + 1)).toModel.unpack.neg).unpack _ _
    have hneg : Holds (Float.ofNat (n + 1)).toModel.unpack.neg .negative
        (Int.negSucc n).natAbs := by
      rw [hu]
      exact ⟨m, e, hm, rfl, hlog, hlow, hhigh, hvalue⟩
    rw [hneg.unpack_pack]
    exact hneg

/-! ## Decimals -/

/-- Where the digits and the unit of a decimal are floats, its float is one nearest to it. -/
theorem nearby_toFloat {d : Decimal} (hd : d.digits ≠ 0) (hdigits : d.digits.natAbs < 2 ^ 53)
    (hscale : 0 ≤ d.scale ∧ d.scale ≤ 22) :
    Nearby d.toFloat.toModel.unpack (signOf d.digits) (d.digits.natAbs / 10 ^ d.scale.toNat) := by
  obtain ⟨n, hn⟩ : ∃ n : ℕ, d.scale = n := ⟨d.scale.toNat, by omega⟩
  have hpower := holds_of_isTenTo (isTenTo_powerOfTen n (by omega))
  rw [← hn] at hpower
  have hdiv := nearby_div (holds_ofInt hd hdigits) hpower
  have hsign : signOf d.digits / Sign.positive = signOf d.digits := by
    unfold signOf
    split <;> rfl
  rw [hsign] at hdiv
  show Nearby (Float.Model.pack (UnpackedFloat.div Format.binary64 _ _)).unpack _ _
  rw [hdiv.unpack_pack, show d.scale.toNat = n by omega]
  exact hdiv

end BinaryView

end RecordMapper
