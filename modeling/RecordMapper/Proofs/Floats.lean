import Mathlib
import RecordMapper.Number.Numeral

/-!
# What floats hold

The view of a float's bits is read off the parts that the arithmetic of floats packs into them.

1. `BinaryView.ofFloat_eq`: the view is the view of the parts.
2. `unpack_pack_ne_nan` and `unpack_pack_normal`: packing makes no number not-a-number, and keeps a
   normal number as it is.
3. `BinaryView.toFloat_ne_nan`: a numeral is a number.
4. `BinaryView.ofNat_large`: an integer beyond sixty-three bits is a float that is as large.
-/

namespace RecordMapper

open Float.Model UnpackedFloat

namespace BinaryView

/-! ## The parts of a float -/

def ofParts : UnpackedFloat → BinaryView
  | .notANumber => .nan
  | .infinity s => .infinite (s == .negative)
  | .zero s => .finite (s == .negative) 0 (-1074)
  | .finite s m e _ => .finite (s == .negative) m e

theorem ofParts_eq_nan {u : UnpackedFloat} : ofParts u = .nan ↔ u = .notANumber := by
  cases u <;> simp [ofParts]

theorem toNat_unpackExponent (bits : UInt64) :
    (@unpackExponent Format.binary64 bits.toBitVec).toNat = bits.toNat / 2 ^ 52 % 2048 := by
  simp [unpackExponent, Nat.shiftRight_eq_div_pow]

theorem toNat_unpackMantissa (bits : UInt64) :
    (@unpackMantissa Format.binary64 bits.toBitVec).toNat = bits.toNat % 2 ^ 52 := by
  simp [unpackMantissa]

theorem sign_of_unpackSign (bits : UInt64) :
    (Sign.ofBitVec (@unpackSign Format.binary64 bits.toBitVec) == .negative) =
      (bits.toNat / 2 ^ 63 % 2 == 1) := by
  have hsign : (@unpackSign Format.binary64 bits.toBitVec).toNat = bits.toNat / 2 ^ 63 % 2 := by
    simp [unpackSign, Nat.shiftRight_eq_div_pow]
  have hzero : @unpackSign Format.binary64 bits.toBitVec = 0#1 ↔
      bits.toNat / 2 ^ 63 % 2 = 0 := by
    rw [← hsign]
    exact BitVec.toNat_inj.symm
  unfold Sign.ofBitVec
  by_cases h : bits.toNat / 2 ^ 63 % 2 = 0
  · rw [if_pos (hzero.mpr h), h]
    rfl
  · rw [if_neg (mt hzero.mp h), Nat.mod_two_ne_zero.mp h]
    rfl

theorem toNat_implicit (m : BitVec 52) : (1#1 ++ m).toNat = m.toNat + 2 ^ 52 := by
  rw [BitVec.toNat_append, ← Nat.shiftLeft_add_eq_or_of_lt m.isLt, Nat.add_comm]
  rfl

theorem ofFloat_eq (x : Float) : ofFloat x = ofParts x.toModel.unpack := by
  show ofBits x.toModel.toBits =
    ofParts (UnpackedFloat.unpack Format.binary64 x.toModel.toBits.toBitVec)
  generalize x.toModel.toBits = bits
  have hexponent := toNat_unpackExponent bits
  have hmantissa := toNat_unpackMantissa bits
  have hsign := sign_of_unpackSign bits
  have hinfinite : @unpackExponent Format.binary64 bits.toBitVec = -1#11 ↔
      bits.toNat / 2 ^ 52 % 2048 = 2047 := by
    rw [← BitVec.toNat_inj, hexponent]
    rfl
  have hsubnormal : @unpackExponent Format.binary64 bits.toBitVec = 0#11 ↔
      bits.toNat / 2 ^ 52 % 2048 = 0 := by
    rw [← BitVec.toNat_inj, hexponent]
    rfl
  have hzero : @unpackMantissa Format.binary64 bits.toBitVec = 0#52 ↔
      bits.toNat % 2 ^ 52 = 0 := by
    rw [← BitVec.toNat_inj, hmantissa]
    rfl
  show (if bits.toNat / 2 ^ 52 % 2048 = 2047 then
      if bits.toNat % 2 ^ 52 = 0 then BinaryView.infinite (bits.toNat / 2 ^ 63 % 2 == 1) else .nan
    else if bits.toNat / 2 ^ 52 % 2048 = 0 then
      .finite (bits.toNat / 2 ^ 63 % 2 == 1) (bits.toNat % 2 ^ 52) (-1074)
    else .finite (bits.toNat / 2 ^ 63 % 2 == 1) (bits.toNat % 2 ^ 52 + 2 ^ 52)
      ((bits.toNat / 2 ^ 52 % 2048 : Nat) - 1075)) = _
  unfold UnpackedFloat.unpack
  dsimp only
  split
  next h =>
    rw [if_pos (hinfinite.mpr h)]
    split
    next hz => rw [if_pos (hzero.mpr hz), ofParts, hsign]
    next hz => rw [if_neg (mt hzero.mp hz)]; rfl
  next h =>
    rw [if_neg (mt hinfinite.mp h)]
    split
    next he =>
      rw [if_pos (hsubnormal.mpr he)]
      split
      next hz => rw [ofParts, hsign, hzero.mp hz]
      next hz => rw [ofParts, hsign, hmantissa, hexponent, he]; rfl
    next he =>
      rw [if_neg (mt hsubnormal.mp he), ofParts, hsign, toNat_implicit, hmantissa, hexponent]
      rfl

/-! ## Packing -/

theorem unpack_packComponents_ne_nan {s : Sign} {e : BitVec 11} {m : BitVec 52}
    (h : e = -1#11 → m = 0#52) :
    UnpackedFloat.unpack Format.binary64 (packComponents Format.binary64 s e m) ≠ .notANumber := by
  unfold UnpackedFloat.unpack
  simp only [unpackExponent_packComponents, unpackMantissa_packComponents]
  by_cases he : e = -1#11
  · rw [if_pos he, if_pos (h he)]
    exact UnpackedFloat.noConfusion
  · rw [if_neg he]
    split
    · split <;> exact UnpackedFloat.noConfusion
    · exact UnpackedFloat.noConfusion

theorem ofNat_exponent_ne {n : Nat} (h : ¬2 ^ 11 ≤ n + 1) : BitVec.ofNat 11 n ≠ -1#11 := by
  intro he
  have hn := congrArg BitVec.toNat he
  rw [BitVec.toNat_ofNat, Nat.mod_eq_of_lt (by omega)] at hn
  have hn : n = 2047 := hn
  omega

/-- Packing makes no number not-a-number. -/
theorem unpack_pack_ne_nan {u : UnpackedFloat} (h : u ≠ .notANumber) :
    (Float.Model.pack u).unpack ≠ .notANumber := by
  show UnpackedFloat.unpack Format.binary64 (UnpackedFloat.pack Format.binary64 u) ≠ _
  cases u with
  | notANumber => exact absurd rfl h
  | infinity s => exact unpack_packComponents_ne_nan fun _ => rfl
  | zero s => exact unpack_packComponents_ne_nan fun h => absurd h (by decide)
  | finite s m e hm =>
    unfold UnpackedFloat.pack
    dsimp only
    split
    · exact unpack_packComponents_ne_nan fun _ => rfl
    · next hsmall =>
      split
      · exact unpack_packComponents_ne_nan fun he => absurd he (ofNat_exponent_ne hsmall)
      · exact unpack_packComponents_ne_nan fun h => absurd h (by decide)

/-- A normal number is packed as it is. -/
theorem unpack_pack_normal (s : Sign) {m : Nat} {e : Int} (hm : 0 < m) (hlog : m.log2 = 52)
    (he : -1074 ≤ e) (he' : e ≤ 971) :
    (Float.Model.pack (.finite s m e hm)).unpack = .finite s m e hm := by
  obtain ⟨hlow, hhigh⟩ := (Nat.log2_eq_iff (Nat.ne_of_gt hm)).mp hlog
  obtain ⟨biased, hbiased⟩ : ∃ biased : Nat, (biased : Int) = e + 1075 :=
    ⟨(e + 1075).toNat, by omega⟩
  have hexponent : (BitVec.ofNat 11 biased).toNat = biased := by
    rw [BitVec.toNat_ofNat, Nat.mod_eq_of_lt (by omega)]
  have hsmall : ¬2 ^ 11 ≤ biased + 1 := by omega
  have hpositive : BitVec.ofNat 11 biased ≠ 0#11 := fun h => by
    rw [h] at hexponent
    have hzero : 0 = biased := hexponent
    omega
  have hmantissa : (1#1 ++ BitVec.ofNat 52 m).toNat = m := by
    rw [toNat_implicit, BitVec.toNat_ofNat]
    omega
  have hpack : UnpackedFloat.pack Format.binary64 (.finite s m e hm) =
      packComponents Format.binary64 s (BitVec.ofNat 11 biased) (BitVec.ofNat 52 m) := by
    have htoNat : (e + (Format.binary64.exponentBias : Int) + (52 : Nat)).toNat = biased := by
      show (e + (1023 : Nat) + (52 : Nat)).toNat = biased
      omega
    unfold UnpackedFloat.pack
    dsimp only
    rw [htoNat, if_neg hsmall, hlog]
    rfl
  refine (congrArg (UnpackedFloat.unpack Format.binary64) hpack).trans ?_
  unfold UnpackedFloat.unpack
  simp only [unpackExponent_packComponents, unpackMantissa_packComponents,
    unpackSign_packComponents, Sign.ofBitVec_toBitVec]
  rw [if_neg (ofNat_exponent_ne hsmall), if_neg hpositive]
  congr 1
  rw [hexponent]
  show (biased : Int) - ((1023 : Nat) + (52 : Nat)) = e
  omega

/-! ## Rounding -/

theorem mantissa_shiftRight (em : ExtendedMantissa) (k : Nat) :
    (em >>> k).mantissa = em.mantissa / 2 ^ k := by
  induction k with
  | zero => exact (Nat.div_one _).symm
  | succ k ih =>
    show (em >>> k).mantissa / 2 = _
    rw [ih, Nat.div_div_eq_div_mul, Nat.pow_succ]

theorem mantissa_ofMantissaAndAccuracy (m : Nat) (a : Accuracy) :
    (ExtendedMantissa.ofMantissaAndAccuracy m a).mantissa = m := by
  cases a with
  | exact => rfl
  | inexact o => cases o <;> rfl

theorem roundedMantissa_bounds (em : ExtendedMantissa) :
    em.mantissa ≤ em.roundedMantissa ∧ em.roundedMantissa ≤ em.mantissa + 1 := by
  unfold ExtendedMantissa.roundedMantissa
  cases em.accuracy with
  | exact => exact ⟨Nat.le_refl _, Nat.le_succ _⟩
  | inexact o =>
    cases o <;> simp [Accuracy.roundToNearestEven]
    omega

/-- Where the bits of an extended mantissa place a number that is counted in units of its last
place: a half more where the round bit is set, and something behind it where the sticky bit is. -/
def Places (em : ExtendedMantissa) (x : ℚ) : Prop :=
  ∃ f : ℚ, x = em.mantissa + (if em.roundBit then 1 / 2 else 0) + f ∧ 0 ≤ f ∧ f < 1 / 2 ∧
    (em.stickyBit = true ↔ f ≠ 0)

variable {em : ExtendedMantissa} {x : ℚ}

theorem Places.mantissa_le (h : Places em x) : (em.mantissa : ℚ) ≤ x := by
  obtain ⟨f, rfl, hf, -, -⟩ := h
  split <;> linarith

theorem Places.shiftRightOne (h : Places em x) : Places em.shiftRightOne (x / 2) := by
  obtain ⟨f, rfl, hf, hhalf, hsticky⟩ := h
  have hmod : (em.mantissa : ℚ) = 2 * (em.mantissa / 2 : ℕ) + (em.mantissa % 2 : ℕ) := by
    exact_mod_cast (Nat.div_add_mod em.mantissa 2).symm
  have hbit : ((em.mantissa % 2 : ℕ) : ℚ) / 2 =
      if (em.mantissa % 2 != 0) = true then 1 / 2 else 0 := by
    obtain h | h := Nat.mod_two_eq_zero_or_one em.mantissa <;> simp [h]
  refine ⟨((if em.roundBit then 1 / 2 else 0) + f) / 2, ?_, ?_, ?_, ?_⟩
  · unfold ExtendedMantissa.shiftRightOne
    dsimp only
    rw [← hbit]
    linarith
  · split <;> linarith
  · split <;> linarith
  · unfold ExtendedMantissa.shiftRightOne
    dsimp only
    rw [Bool.or_eq_true, hsticky]
    split <;> rename_i hround
    · simp only [hround, true_or, true_iff]
      intro hzero
      linarith
    · simp [hround]

theorem Places.shiftRight (h : Places em x) (k : Nat) : Places (em >>> k) (x / 2 ^ k) := by
  induction k with
  | zero => rwa [pow_zero, div_one]
  | succ k ih =>
    rw [pow_succ, ← div_div]
    exact ih.shiftRightOne

/-- The rounded mantissa is within half a unit. -/
theorem Places.rounded (h : Places em x) : |(em.roundedMantissa : ℚ) - x| ≤ 1 / 2 := by
  obtain ⟨m, round, sticky⟩ := em
  obtain ⟨f, rfl, hf, hhalf, hsticky⟩ := h
  have hzero : sticky = false → f = 0 := by
    rintro rfl
    by_contra hne
    exact Bool.noConfusion (hsticky.mpr hne)
  rw [abs_le]
  cases round <;> cases sticky
  · rw [hzero rfl]
    simp [ExtendedMantissa.roundedMantissa, ExtendedMantissa.accuracy, Accuracy.roundToNearestEven]
  · simp [ExtendedMantissa.roundedMantissa, ExtendedMantissa.accuracy, Accuracy.roundToNearestEven]
    constructor <;> linarith
  · rw [hzero rfl]
    simp [ExtendedMantissa.roundedMantissa, ExtendedMantissa.accuracy, Accuracy.roundToNearestEven]
    obtain h | h := Nat.mod_two_eq_zero_or_one m <;> rw [h] <;> norm_num
  · simp [ExtendedMantissa.roundedMantissa, ExtendedMantissa.accuracy, Accuracy.roundToNearestEven]
    constructor <;> linarith

theorem places_exact (m : Nat) : Places (.ofMantissaAndAccuracy m .exact) m :=
  ⟨0, by simp [ExtendedMantissa.ofMantissaAndAccuracy], le_refl _, by norm_num, by
    simp [ExtendedMantissa.ofMantissaAndAccuracy]⟩

theorem places_quotient (n : Nat) {d : Nat} (hd : 0 < d) :
    Places (.ofMantissaAndAccuracy (n / d) (accuracyOfFraction (n % d) d)) (n / d) := by
  have hd' : (0 : ℚ) < d := by exact_mod_cast hd
  have hmod : (n : ℚ) / d = (n / d : ℕ) + (n % d : ℕ) / d := by
    have h : (n : ℚ) = d * (n / d : ℕ) + (n % d : ℕ) := by exact_mod_cast (Nat.div_add_mod n d).symm
    field_simp
    linarith
  have hlt : ((n % d : ℕ) : ℚ) < d := by exact_mod_cast Nat.mod_lt n hd
  have hge : (0 : ℚ) ≤ (n % d : ℕ) := Nat.cast_nonneg _
  rw [hmod]
  unfold accuracyOfFraction
  split
  · next hzero =>
    rw [hzero, Nat.cast_zero, zero_div, add_zero]
    exact places_exact _
  · next hne =>
    have hpos : (0 : ℚ) < (n % d : ℕ) := by exact_mod_cast Nat.pos_of_ne_zero hne
    cases hc : compare (2 * (n % d)) d with
    | lt =>
      have : (2 * (n % d : ℕ) : ℚ) < d := by exact_mod_cast Nat.compare_eq_lt.mp hc
      refine ⟨(n % d : ℕ) / d, ?_, by positivity, ?_, ?_⟩
      · simp [ExtendedMantissa.ofMantissaAndAccuracy]
      · rw [div_lt_iff₀ hd']
        linarith
      · simp only [ExtendedMantissa.ofMantissaAndAccuracy, true_iff]
        positivity
    | eq =>
      have : (2 * (n % d : ℕ) : ℚ) = d := by exact_mod_cast Nat.compare_eq_eq.mp hc
      refine ⟨0, ?_, le_refl _, by norm_num, ?_⟩
      · simp only [ExtendedMantissa.ofMantissaAndAccuracy, if_true]
        rw [← this]
        field_simp
        ring
      · simp [ExtendedMantissa.ofMantissaAndAccuracy]
    | gt =>
      have hgt : (d : ℚ) < 2 * (n % d : ℕ) := by exact_mod_cast Nat.compare_eq_gt.mp hc
      refine ⟨(n % d : ℕ) / d - 1 / 2, ?_, ?_, ?_, ?_⟩
      · simp only [ExtendedMantissa.ofMantissaAndAccuracy, if_true]
        ring
      · rw [sub_nonneg, le_div_iff₀ hd']
        linarith
      · rw [sub_lt_iff_lt_add, div_lt_iff₀ hd']
        linarith
      · simp only [ExtendedMantissa.ofMantissaAndAccuracy, true_iff]
        intro hzero
        rw [sub_eq_zero, div_eq_iff hd'.ne'] at hzero
        linarith
theorem shiftToTargetExponent_normal {m : Nat} {e : Int} (hm : 52 ≤ m.log2) (he : -1074 ≤ e)
    (a : Accuracy) :
    shiftToTargetExponent Format.binary64 m e a =
      (ExtendedMantissa.ofMantissaAndAccuracy m a >>> (m.log2 - 52), e + (m.log2 - 52 : Nat)) := by
  have htarget : Format.binary64.targetExponent (totalExponent m e) = m.log2 + e - 52 := by
    show max (((m.log2 : Int) + 1 + e) - (53 : Nat)) (-1074) = _
    omega
  have hshift : (Format.binary64.targetExponent (totalExponent m e) - e).toNat =
      m.log2 - 52 := by omega
  unfold shiftToTargetExponent shiftToExponent
  dsimp only
  rw [hshift]

theorem mantissa_shifted (m k : Nat) (a : Accuracy) :
    (ExtendedMantissa.ofMantissaAndAccuracy m a >>> k).mantissa = m / 2 ^ k := by
  rw [mantissa_shiftRight, mantissa_ofMantissaAndAccuracy]

theorem log2_shifted {m : Nat} (hm : 52 ≤ m.log2) : (m / 2 ^ (m.log2 - 52)).log2 = 52 := by
  have hne : m ≠ 0 := by
    rintro rfl
    exact absurd hm (by decide)
  have hlow : 2 ^ 52 * 2 ^ (m.log2 - 52) ≤ m := by
    rw [← Nat.pow_add, Nat.add_sub_cancel' hm]
    exact Nat.log2_self_le hne
  have hhigh : m < 2 ^ (52 + 1) * 2 ^ (m.log2 - 52) := by
    rw [← Nat.pow_add, show 52 + 1 + (m.log2 - 52) = m.log2 + 1 by omega]
    exact Nat.lt_log2_self
  have hpos : 0 < 2 ^ (m.log2 - 52) := Nat.two_pow_pos _
  have hdiv : 2 ^ 52 ≤ m / 2 ^ (m.log2 - 52) := (Nat.le_div_iff_mul_le hpos).mpr hlow
  exact (Nat.log2_eq_iff (Nat.ne_of_gt (Nat.lt_of_lt_of_le (by decide) hdiv))).mpr
    ⟨hdiv, (Nat.div_lt_iff_lt_mul hpos).mpr hhigh⟩

/-- A large mantissa is rounded to a normal number: `r` units of its last place, or the next power
of two, which is written with one place less. -/
theorem roundWithAccuracy_normal {s : Sign} {m : Nat} {e : Int} {a : Accuracy} (hm : 52 ≤ m.log2)
    (he : -1074 ≤ e) (hx : Places (ExtendedMantissa.ofMantissaAndAccuracy m a) x) :
    ∃ m' e' h, roundWithAccuracy Format.binary64 s m e a = .finite s m' e' h ∧ m'.log2 = 52 ∧
      e + (m.log2 - 52 : Nat) ≤ e' ∧ e' ≤ e + (m.log2 - 52 : Nat) + 1 ∧
      ∃ r : ℕ, (m' : ℚ) * 2 ^ e' = r * 2 ^ (e + (m.log2 - 52 : Nat)) ∧
        |r - x / 2 ^ (m.log2 - 52)| ≤ 1 / 2 := by
  have hfirst := shiftToTargetExponent_normal hm he a
  have hplaces := hx.shiftRight (m.log2 - 52)
  have hmantissa := mantissa_shifted m (m.log2 - 52) a
  have hlog := log2_shifted hm
  generalize ExtendedMantissa.ofMantissaAndAccuracy m a >>> (m.log2 - 52) =
    em at hfirst hplaces hmantissa
  generalize m.log2 - 52 = k at *
  rw [← hmantissa] at hlog
  obtain ⟨hlow, hhigh⟩ := (Nat.log2_eq_iff (n := em.mantissa) (k := 52) (by
    intro h
    exact absurd hlog (by rw [h]; decide))).mp hlog
  -- Rounding up may give the next power of two, and then one more bit is shifted out.
  obtain ⟨hdown, hup⟩ := roundedMantissa_bounds em
  have hne : em.roundedMantissa ≠ 0 := by omega
  have hlog : 52 ≤ em.roundedMantissa.log2 := (Nat.le_log2 hne).mpr (by omega)
  have hlog' : em.roundedMantissa.log2 < 54 := (Nat.log2_lt hne).mpr (by omega)
  have hsecond := shiftToTargetExponent_normal hlog (e := e + k) (by omega) .exact
  have hfinal := log2_shifted hlog
  have hnonzero : em.roundedMantissa / 2 ^ (em.roundedMantissa.log2 - 52) ≠ 0 := fun h => by
    rw [h] at hfinal
    exact absurd hfinal (by decide)
  have hexact : em.roundedMantissa / 2 ^ (em.roundedMantissa.log2 - 52) *
      2 ^ (em.roundedMantissa.log2 - 52) = em.roundedMantissa := by
    have hself := Nat.log2_self_le hne
    obtain h | h : em.roundedMantissa.log2 = 52 ∨ em.roundedMantissa.log2 = 53 := by omega
    · rw [h, Nat.sub_self, Nat.pow_zero, Nat.div_one, Nat.mul_one]
    · rw [h] at hself ⊢
      omega
  refine ⟨_, e + k + (em.roundedMantissa.log2 - 52 : Nat), Nat.pos_of_ne_zero hnonzero, ?_, hfinal,
    by omega, by omega, em.roundedMantissa, ?_, hplaces.rounded⟩
  · unfold roundWithAccuracy
    rw [hfirst]
    dsimp only
    rw [hsecond]
    dsimp only
    simp only [mantissa_shifted]
    exact dif_neg hnonzero
  · have hcast := congrArg (Nat.cast : ℕ → ℚ) hexact
    rw [Nat.cast_mul, Nat.cast_pow, Nat.cast_ofNat] at hcast
    rw [zpow_add₀ (by norm_num) (e + k), mul_left_comm, zpow_natCast, hcast, mul_comm]

/-! ## Numerals -/

theorem roundWithAccuracy_ne_nan {s : Sign} {m : Nat} {e : Int} {a : Accuracy} :
    roundWithAccuracy Format.binary64 s m e a ≠ .notANumber := by
  unfold roundWithAccuracy
  dsimp only
  split <;> exact UnpackedFloat.noConfusion

/-- The parts of a number that is neither zero nor infinite. -/
def isNonzero : UnpackedFloat → Bool
  | .finite .. => true
  | _ => false

theorem mul_ne_nan {u v : UnpackedFloat} (hu : u ≠ .notANumber) (hv : isNonzero v = true) :
    UnpackedFloat.mul Format.binary64 u v ≠ .notANumber := by
  cases v with
  | finite s m e h =>
    cases u with
    | notANumber => exact absurd rfl hu
    | finite s' m' e' h' => exact roundWithAccuracy_ne_nan
    | _ => exact UnpackedFloat.noConfusion
  | _ => cases hv

theorem div_ne_nan {u v : UnpackedFloat} (hu : u ≠ .notANumber) (hv : isNonzero v = true) :
    UnpackedFloat.div Format.binary64 u v ≠ .notANumber := by
  cases v with
  | finite s m e h =>
    cases u with
    | notANumber => exact absurd rfl hu
    | finite s' m' e' h' => exact roundWithAccuracy_ne_nan
    | _ => exact UnpackedFloat.noConfusion
  | _ => cases hv

theorem ofScientific_model_ne_nan (m : Nat) (e : Int) :
    UnpackedFloat.ofScientific Format.binary64 m e ≠ .notANumber := by
  unfold UnpackedFloat.ofScientific
  split
  · exact UnpackedFloat.noConfusion
  · split
    · exact UnpackedFloat.noConfusion
    · split
      · exact UnpackedFloat.noConfusion
      · split
        · exact mul_ne_nan UnpackedFloat.noConfusion rfl
        · exact div_ne_nan UnpackedFloat.noConfusion rfl

theorem unpack_uint64_ne_nan (n : UInt64) : n.toFloat.toModel.unpack ≠ .notANumber := by
  refine unpack_pack_ne_nan ?_
  show UnpackedFloat.normalize Format.binary64 _ _ _ ≠ _
  unfold UnpackedFloat.normalize
  split
  · exact roundWithAccuracy_ne_nan
  · exact UnpackedFloat.noConfusion
  · exact roundWithAccuracy_ne_nan

theorem powersOfTen_nonzero :
    ∀ x ∈ Float.exactlyRepresentablePowersOfTen, isNonzero x.toModel.unpack = true := by
  decide

theorem ofScientific_ne_nan (m : Nat) (s : Bool) (e : Nat) :
    (Float.ofScientific m s e).toModel.unpack ≠ .notANumber := by
  unfold Float.ofScientific
  split
  · dsimp only
    split
    · exact unpack_pack_ne_nan (div_ne_nan (unpack_uint64_ne_nan _)
        (powersOfTen_nonzero _ (Array.getElem_mem _)))
    · exact unpack_pack_ne_nan (mul_ne_nan (unpack_uint64_ne_nan _)
        (powersOfTen_nonzero _ (Array.getElem_mem _)))
  · exact unpack_pack_ne_nan (ofScientific_model_ne_nan _ _)

theorem neg_ne_nan {x : Float} (h : x.toModel.unpack ≠ .notANumber) :
    (-x).toModel.unpack ≠ .notANumber := by
  refine unpack_pack_ne_nan ?_
  cases hx : x.toModel.unpack with
  | notANumber => exact absurd hx h
  | _ => exact UnpackedFloat.noConfusion

theorem ofInt_ne_nan (i : Int) : ofFloat (Float.ofInt i) ≠ .nan := by
  rw [ofFloat_eq, Ne, ofParts_eq_nan]
  cases i with
  | ofNat n => exact ofScientific_ne_nan n false 0
  | negSucc n => exact neg_ne_nan (ofScientific_ne_nan (n + 1) false 0)

/-- The float nearest to a numeral is a number. -/
theorem toFloat_ne_nan (n : Numeral) : ofFloat n.toFloat ≠ .nan := by
  rw [ofFloat_eq, Ne, ofParts_eq_nan]
  unfold Numeral.toFloat
  extract_lets leading size
  have hsize : size.toModel.unpack ≠ .notANumber := by
    unfold size
    split
    · exact ofScientific_ne_nan 0 true 1
    · split
      · exact fun h => UnpackedFloat.noConfusion (h : UnpackedFloat.infinity .positive = .notANumber)
      · split
        · exact ofScientific_ne_nan 0 true 1
        · exact ofScientific_ne_nan _ _ _
  split
  · exact neg_ne_nan hsize
  · exact hsize

/-! ## Large integers -/

/-- An integer that does not fit in sixty-three bits is, as a float, at least as large as the
least such. -/
theorem ofNat_large {n : Nat} (h : 2 ^ 63 ≤ n) (h' : n < 2 ^ 64) : ∃ negative m e,
    ofFloat (Float.ofNat n) = .finite negative m e ∧ 0 ≤ e ∧ 2 ^ 63 ≤ m * 2 ^ e.toNat := by
  have hne : n ≠ 0 := by omega
  have hlog : n.log2 = 63 := (Nat.log2_eq_iff hne).mpr ⟨h, h'⟩
  -- The digits are shifted as far as a mantissa reaches before they are rounded.
  have hshifted : (n <<< 53 * 10 ^ (0 : Int).toNat).log2 = 116 := by
    rw [show 10 ^ (0 : Int).toNat = 1 from rfl, Nat.mul_one, Nat.shiftLeft_eq]
    exact (Nat.log2_eq_iff (by omega)).mpr ⟨by omega, by omega⟩
  obtain ⟨m, e, hm, hround, hmlog, hlow, hhigh, -⟩ :=
    roundWithAccuracy_normal (s := .positive * .positive)
    (m := n <<< 53 * 10 ^ (0 : Int).toNat) (e := -(53 : Nat) + 0)
    (by omega) (by omega) (places_exact _)
  have hmodel : (Float.ofNat n).toModel =
      Float.Model.pack (.finite (.positive * .positive) m e hm) := by
    rw [← hround]
    show (Float.ofScientific n false 0).toModel = _
    unfold Float.ofScientific
    rw [dif_neg (by omega)]
    show Float.Model.pack (UnpackedFloat.ofScientific Format.binary64 n 0) = _
    unfold UnpackedFloat.ofScientific
    rw [dif_neg hne, if_neg (by decide), if_neg (by rw [hlog]; decide), if_pos (by decide)]
    rfl
  have he : -1074 ≤ e := by omega
  refine ⟨Sign.positive * .positive == .negative, m, e, ?_, by omega, ?_⟩
  · rw [ofFloat_eq, hmodel, unpack_pack_normal _ hm hmlog he (by omega), ofParts]
  · have hmlow := ((Nat.log2_eq_iff (Nat.ne_of_gt hm)).mp hmlog).1
    calc 2 ^ 63 = 2 ^ 52 * 2 ^ 11 := by decide
      _ ≤ m * 2 ^ e.toNat := Nat.mul_le_mul hmlow (Nat.pow_le_pow_right (by decide) (by omega))

end BinaryView

end RecordMapper
