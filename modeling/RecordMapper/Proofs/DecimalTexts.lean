import Mathlib.Algebra.Order.Field.Rat
import Mathlib.Data.List.Induction
import RecordMapper.Decimal
import RecordMapper.Proofs.StoredTimes

/-!
# Texts of decimals

The text of a decimal is exact, whatever its digits and its scale.

1. `digitsValue_append`, `head_toDigits`: numerals that are put together, and the first
   digit of one.
2. `Numeral.Parts`: a numeral in parts, and how it is read (`Numeral.Parts.read_chars`).
3. `Decimal.parts`: the parts of a decimal's text, and the number that they stand for.
4. `Decimal.rendered?`: the text computed in machine integers, each step checked.
5. `Decimal.text_exact`: no step fails, and the text denotes the decimal digit by digit.
-/

namespace RecordMapper

/-! ## Numerals -/

theorem digitsValue_append (cs ds : List Char) :
    digitsValue (cs ++ ds) = digitsValue cs * tenTo ds.length + digitsValue ds := by
  induction ds using List.reverseRecOn with
  | nil => simp [digitsValue]
  | append_singleton ds d ih =>
    have hpow : tenTo (ds ++ [d]).length = 10 * tenTo ds.length := by
      rw [List.length_append, List.length_singleton]
      exact Nat.pow_succ'
    rw [← List.append_assoc, digitsValue_append_singleton, digitsValue_append_singleton, ih, hpow,
      Nat.mul_add, ← Nat.mul_assoc, ← Nat.mul_assoc, Nat.mul_comm 10 (digitsValue cs),
      Nat.add_assoc]

theorem digitsValue_replicate (k : Nat) : digitsValue (List.replicate k '0') = 0 := by
  have h := digitsValue_zeros k []
  rwa [List.append_nil] at h

theorem digitsValue_lt {cs : List Char} (h : ∀ c ∈ cs, isDigit c = true) :
    digitsValue cs < tenTo cs.length := by
  induction cs using List.reverseRecOn with
  | nil => decide
  | append_singleton cs c ih =>
    have hc := h c List.mem_concat_self
    have hdigit : digitValue c ≤ 9 := by
      simp only [isDigit, Bool.and_eq_true, decide_eq_true_eq, Char.le_def,
        UInt32.le_iff_toNat_le] at hc
      have : c.toNat ≤ 57 := hc.2
      have : '0'.toNat = 48 := rfl
      unfold digitValue
      omega
    have := ih fun d hd => h d (List.mem_append_left _ hd)
    have hpow : tenTo (cs ++ [c]).length = 10 * tenTo cs.length := by
      rw [List.length_append, List.length_singleton]
      exact Nat.pow_succ'
    rw [digitsValue_append_singleton, hpow]
    omega

/-- Only zero is written with a zero in front. -/
theorem head_toDigits {n : Nat} (h : (Nat.toDigits 10 n).head? = some '0') : n = 0 := by
  obtain ⟨rest, hrest⟩ := List.head?_eq_some_iff.mp h
  have hvalue : digitsValue rest = n := by
    have hall := digitsValue_toDigits n
    rw [hrest] at hall
    exact hall
  have hdigits : ∀ c ∈ rest, isDigit c = true := fun c hc =>
    isDigit_of_mem_toDigits (n := n) (hrest ▸ List.mem_cons_of_mem _ hc)
  obtain rfl | hne := eq_or_ne rest []
  · exact hvalue.symm
  · -- the digits behind the zero would spell the number in fewer places
    have hlt := digitsValue_lt hdigits
    rw [hvalue] at hlt
    have hle := (Nat.length_toDigits_le_iff (b := 10) (by decide) (List.length_pos_iff.mpr hne)).mpr hlt
    rw [hrest, List.length_cons] at hle
    omega

/-! ## Parts of a numeral -/

namespace Numeral

/-- The number that a numeral denotes. -/
def value (n : Numeral) : ℚ := (if n.negative then -(n.digits : ℚ) else n.digits) * 10 ^ n.exponent

/-- An optional minus sign, the digits before the point and those behind it. -/
structure Parts where
  negative : Bool
  whole : List Char
  fraction : List Char

namespace Parts

/-- The parts as they are written: a point stands only before digits. -/
def chars (p : Parts) : List Char :=
  (if p.negative then ['-'] else []) ++ p.whole ++
    (if p.fraction = [] then [] else '.' :: p.fraction)

/-- Digits where digits belong, some before the point and no zero in front of others. -/
structure Proper (p : Parts) : Prop where
  whole_ne_nil : p.whole ≠ []
  whole_digits : ∀ c ∈ p.whole, isDigit c = true
  leading : p.whole.head? = some '0' → p.whole = ['0']
  fraction_digits : ∀ c ∈ p.fraction, isDigit c = true

/-- A numeral is read from its parts, whole. -/
theorem read_chars {p : Parts} (h : p.Proper) : read p.chars =
    some ({ negative := p.negative, digits := digitsValue (p.whole ++ p.fraction)
            exponent := -(p.fraction.length : Int), integral := p.fraction.isEmpty }, []) := by
  obtain ⟨negative, whole, fraction⟩ := p
  obtain ⟨c, cs, rfl⟩ := List.exists_cons_of_ne_nil h.whole_ne_nil
  have hc : isDigit c = true := h.whole_digits c List.mem_cons_self
  have hsign : sign (chars ⟨negative, c :: cs, fraction⟩) =
      (negative, c :: cs ++ if fraction = [] then [] else '.' :: fraction) := by
    unfold chars
    cases negative
    · show sign (c :: (cs ++ _)) = _
      unfold sign
      split
      · rename_i hcons
        cases hcons
        cases hc
      · rename_i hcons
        cases hcons
        cases hc
      · rfl
    · rfl
  have hnil : Stops isDigit [] := by
    intro c hc
    cases hc
  have hstops : Stops isDigit (if fraction = [] then [] else '.' :: fraction) := by
    split
    · exact hnil
    · intro d hd
      cases hd
      rfl
  have htake := takeWhile_of_stops h.whole_digits hstops
  have hdrop := dropWhile_of_stops h.whole_digits hstops
  unfold read
  rw [hsign]
  simp only [htake, hdrop]
  by_cases hf : fraction = []
  · subst hf
    simp [exponentPart]
  · have hall := takeWhile_of_stops h.fraction_digits hnil
    have hrest := dropWhile_of_stops h.fraction_digits hnil
    rw [List.append_nil] at hall hrest
    have hempty : fraction.isEmpty = false := List.isEmpty_eq_false_iff.mpr hf
    simp only [if_neg hf]
    simp [hall, hrest, hempty, exponentPart]

end Parts

end Numeral

/-! ## Parts of a decimal -/

namespace Decimal

variable {d : Decimal}

/-- The number that a decimal stands for. -/
def value (d : Decimal) : ℚ := d.digits * 10 ^ (-d.scale)

/-- The parts of the text: zeros behind the digits, or a point before the last of them. -/
def parts (d : Decimal) : Numeral.Parts where
  negative := decide (d.digits < 0)
  whole :=
    if d.scale ≤ 0 then
      if d.digits = 0 then ['0'] else Nat.toDigits 10 d.digits.natAbs ++
        List.replicate d.scale.natAbs '0'
    else Nat.toDigits 10 (d.digits.natAbs / tenTo d.scale.toNat)
  fraction :=
    if d.scale ≤ 0 then []
    else (padded d.scale.toNat (d.digits.natAbs % tenTo d.scale.toNat)).toList

theorem toList_toString (i : Int) :
    (toString i).toList = (if i < 0 then ['-'] else []) ++ Nat.toDigits 10 i.natAbs := by
  cases i with
  | ofNat n =>
    have hsign : ¬ Int.ofNat n < 0 := Int.not_lt.mpr (Int.natCast_nonneg n)
    rw [if_neg hsign]
    show (toString n).toList = Nat.toDigits 10 n
    rw [Nat.toString_eq_ofList_toDigits, String.toList_ofList]
  | negSucc n =>
    rw [if_pos (Int.negSucc_lt_zero n)]
    show ("-" ++ toString (n + 1)).toList = ['-'] ++ Nat.toDigits 10 (n + 1)
    have hsign : "-".toList = ['-'] := rfl
    rw [String.toList_append, hsign, Nat.toString_eq_ofList_toDigits, String.toList_ofList]

theorem spells_padded (width n : Nat) : Spells (padded width n).toList n :=
  Timestamp.spells_digitsOf width n

theorem length_padded {width n : Nat} (hw : 0 < width) (h : n < tenTo width) :
    (padded width n).toList.length = width := Timestamp.length_digitsOf hw h

theorem chars_parts (d : Decimal) : d.parts.chars = d.text.toList := by
  unfold text parts Numeral.Parts.chars
  by_cases hs : d.scale ≤ 0
  · simp only [if_pos hs]
    by_cases hd : d.digits = 0
    · simp [hd]
    · rw [if_neg hd, if_neg hd, String.toList_append, toList_toString, zeros, String.toList_ofList]
      simp
  · have hne : (padded d.scale.toNat (d.digits.natAbs % tenTo d.scale.toNat)).toList ≠ [] :=
      (spells_padded _ _).some
    have hsign : (if d.digits < 0 then "-" else "").toList =
        if d.digits < 0 then ['-'] else [] := by
      split <;> rfl
    have hpoint : ".".toList = ['.'] := rfl
    simp only [if_neg hs, if_neg hne]
    rw [String.toList_append, String.toList_append, String.toList_append, hsign, hpoint,
      Nat.toString_eq_ofList_toDigits, String.toList_ofList]
    simp

theorem fraction_of_pos (hs : ¬ d.scale ≤ 0) :
    d.parts.fraction = (padded d.scale.toNat (d.digits.natAbs % tenTo d.scale.toNat)).toList :=
      if_neg hs

theorem whole_of_pos (hs : ¬ d.scale ≤ 0) :
    d.parts.whole = Nat.toDigits 10 (d.digits.natAbs / tenTo d.scale.toNat) := if_neg hs

theorem fraction_of_nonpos (hs : d.scale ≤ 0) : d.parts.fraction = [] := if_pos hs

theorem whole_of_nonpos (hs : d.scale ≤ 0) (hd : d.digits ≠ 0) :
    d.parts.whole = Nat.toDigits 10 d.digits.natAbs ++ List.replicate d.scale.natAbs '0' :=
  (if_pos hs).trans (if_neg hd)

theorem whole_of_zero (hs : d.scale ≤ 0) (hd : d.digits = 0) : d.parts.whole = ['0'] :=
  (if_pos hs).trans (if_pos hd)

theorem proper_parts (d : Decimal) : d.parts.Proper := by
  by_cases hs : d.scale ≤ 0
  · have hnone : ∀ c ∈ d.parts.fraction, isDigit c = true := by
      rw [fraction_of_nonpos hs]
      exact fun c hc => absurd hc List.not_mem_nil
    by_cases hd : d.digits = 0
    · have hw := whole_of_zero hs hd
      refine ⟨?_, ?_, fun _ => hw, hnone⟩
      · rw [hw]
        exact List.cons_ne_nil _ _
      · rw [hw]
        simp [isDigit]
    · have hw := whole_of_nonpos hs hd
      refine ⟨?_, fun c hc => ?_, fun h => ?_, hnone⟩
      · rw [hw]
        exact List.append_ne_nil_of_left_ne_nil Nat.toDigits_ne_nil _
      · rw [hw] at hc
        obtain hc | hc := List.mem_append.mp hc
        · exact isDigit_of_mem_toDigits hc
        · rw [List.eq_of_mem_replicate hc]
          decide
      · rw [hw, List.head?_append_of_ne_nil _ Nat.toDigits_ne_nil] at h
        exact absurd (head_toDigits h) (by omega)
  · have hw := whole_of_pos hs
    refine ⟨?_, fun c hc => ?_, fun h => ?_, fun c hc => ?_⟩
    · rw [hw]
      exact Nat.toDigits_ne_nil
    · rw [hw] at hc
      exact isDigit_of_mem_toDigits hc
    · rw [hw] at h
      rw [hw, head_toDigits h]
      rfl
    · rw [fraction_of_pos hs] at hc
      exact (spells_padded _ _).digits c hc

theorem length_fraction (d : Decimal) : d.parts.fraction.length = d.scale.toNat := by
  by_cases hs : d.scale ≤ 0
  · rw [fraction_of_nonpos hs, List.length_nil]
    omega
  · rw [fraction_of_pos hs]
    exact length_padded (by omega) (Nat.mod_lt _ (tenTo_pos _))

theorem digitsValue_parts (d : Decimal) :
    digitsValue (d.parts.whole ++ d.parts.fraction) = d.digits.natAbs * tenTo (-d.scale).toNat := by
  by_cases hs : d.scale ≤ 0
  · rw [fraction_of_nonpos hs, List.append_nil]
    by_cases hd : d.digits = 0
    · rw [whole_of_zero hs hd, hd, Int.natAbs_zero, Nat.zero_mul]
      rfl
    · have habs : d.scale.natAbs = (-d.scale).toNat := by omega
      rw [whole_of_nonpos hs hd, digitsValue_append, digitsValue_toDigits, digitsValue_replicate,
        List.length_replicate, habs, Nat.add_zero]
  · have hzero : (-d.scale).toNat = 0 := by omega
    have hlen := length_padded (n := d.digits.natAbs % tenTo d.scale.toNat)
      (show 0 < d.scale.toNat by omega) (Nat.mod_lt _ (tenTo_pos _))
    rw [whole_of_pos hs, fraction_of_pos hs, digitsValue_append, digitsValue_toDigits,
      (spells_padded _ _).value, hlen, hzero, Nat.mul_comm, Nat.div_add_mod]
    exact (Nat.mul_one _).symm

/-- The text of a decimal is read as the number that the decimal stands for. -/
theorem read_text (d : Decimal) :
    ∃ n, Numeral.read d.text.toList = some (n, []) ∧ n.negative = decide (d.digits < 0) ∧
      n.value = d.value := by
  refine ⟨_, (congrArg _ (chars_parts d).symm).trans (Numeral.Parts.read_chars (proper_parts d)), rfl, ?_⟩
  have hdigits : (if d.digits < 0 then -(d.digits.natAbs : ℚ) else d.digits.natAbs) = d.digits := by
    split
    · have habs : (d.digits.natAbs : Int) = -d.digits := by omega
      rw [← Int.cast_natCast, habs, Int.cast_neg, neg_neg]
    · have habs : (d.digits.natAbs : Int) = d.digits := by omega
      rw [← Int.cast_natCast, habs]
  have hscale : -d.scale = ((-d.scale).toNat : Int) + -(d.scale.toNat : Int) := by omega
  have hpow : ((tenTo (-d.scale).toNat : Nat) : ℚ) = 10 ^ ((-d.scale).toNat : Int) := by
    rw [zpow_natCast]
    exact Nat.cast_pow 10 _
  have hnegative : d.parts.negative = decide (d.digits < 0) := rfl
  unfold Numeral.value value
  dsimp only
  rw [length_fraction, digitsValue_parts, hnegative, Nat.cast_mul, hpow]
  simp only [decide_eq_true_eq]
  rw [← neg_mul, ← ite_mul, hdigits, mul_assoc, ← zpow_add₀ (by decide), ← hscale]

/-! ## Machine integers -/

/-- A number in an unsigned machine integer of some bits, where it fits. -/
def unsigned? (bits n : Nat) : Option Nat := if n < twoTo bits then some n else none

/-- Ten to a power in an unsigned integer of 128 bits; there is none past its range. -/
def power? (n : Nat) : Option Nat := unsigned? 128 (tenTo n)

/-- The quotient and the remainder; there are none by zero. -/
def divided? (n m : Nat) : Option (Nat × Nat) := if m = 0 then none else some (n / m, n % m)

/-- A magnitude cut at the point. A power of ten past its range is greater than every magnitude, so
nothing is divided by it. -/
def split? (magnitude places : Nat) : Option (Nat × Nat) :=
  match power? places with
  | some divisor => divided? magnitude divisor
  | none => some (0, magnitude)

/-- The text computed in machine integers step by step, or nothing where a step overflows or divides
by zero. -/
def rendered? (d : Decimal) : Option String :=
  if d.scale ≤ 0 then do
    let count ← unsigned? 16 d.scale.natAbs
    return if d.digits = 0 then "0" else toString d.digits ++ zeros count
  else do
    let magnitude ← unsigned? 128 d.digits.natAbs
    let places ← unsigned? 32 d.scale.toNat
    let (whole, fraction) ← split? magnitude places
    return (if d.digits < 0 then "-" else "") ++ toString whole ++ "." ++ padded places fraction

theorem unsigned?_of_lt {bits n : Nat} (h : n < twoTo bits) : unsigned? bits n = some n := if_pos h

theorem split?_eq {n : Nat} (h : n < twoTo 128) (places : Nat) :
    split? n places = some (n / tenTo places, n % tenTo places) := by
  have hpos := tenTo_pos places
  unfold split? power? unsigned?
  by_cases hp : tenTo places < twoTo 128
  · rw [if_pos hp]
    exact if_neg (by omega)
  · rw [if_neg hp, Nat.div_eq_of_lt (by omega), Nat.mod_eq_of_lt (by omega)]

theorem rendered?_eq (hd : Fits d.digits) (hs : -32768 ≤ d.scale ∧ d.scale ≤ 32767) :
    d.rendered? = some d.text := by
  have hmagnitude : d.digits.natAbs < twoTo 128 := by
    have : twoTo 128 = 340282366920938463463374607431768211456 := by decide
    unfold Fits maxDigits at hd
    omega
  unfold rendered? text
  by_cases hscale : d.scale ≤ 0
  · rw [if_pos hscale, if_pos hscale, unsigned?_of_lt (show _ < 65536 by omega)]
    rfl
  · rw [if_neg hscale, if_neg hscale, unsigned?_of_lt hmagnitude,
      unsigned?_of_lt (show _ < 4294967296 by omega)]
    simp only [Option.bind_eq_bind, Option.bind_some, split?_eq hmagnitude]
    rfl

/-- **The text of a decimal is exact** for all digits of 128 bits and every scale of 16 bits: it is
computed without overflow and without a division by zero; it is a numeral with a minus sign exactly
for negative digits, no zero in front of other digits and as many places as the scale has; and what
it denotes is the decimal. -/
theorem text_exact (hd : Fits d.digits) (hs : -32768 ≤ d.scale ∧ d.scale ≤ 32767) :
    d.rendered? = some d.text ∧
      (∃ p : Numeral.Parts, p.Proper ∧ p.chars = d.text.toList ∧ p.negative = decide (d.digits < 0) ∧
        p.fraction.length = d.scale.toNat) ∧
      ∃ n, Numeral.read d.text.toList = some (n, []) ∧ n.negative = decide (d.digits < 0) ∧
        n.value = d.value :=
  ⟨rendered?_eq hd hs, ⟨d.parts, proper_parts d, chars_parts d, rfl, length_fraction d⟩, read_text d⟩

theorem text_exact_least :
    rendered? ⟨-170141183460469231731687303715884105728, -32768⟩ =
        some (text ⟨-170141183460469231731687303715884105728, -32768⟩) ∧
      ∃ n, Numeral.read (text ⟨-170141183460469231731687303715884105728, -32768⟩).toList =
        some (n, []) ∧
        n.negative = true ∧ n.value = value ⟨-170141183460469231731687303715884105728, -32768⟩ := by
  obtain ⟨hrendered, -, n, hread, hnegative, hvalue⟩ :=
    text_exact (d := ⟨-170141183460469231731687303715884105728, -32768⟩) ⟨by decide, by decide⟩
      ⟨by decide, by decide⟩
  exact ⟨hrendered, n, hread, hnegative, hvalue⟩

example : text ⟨-12, 3⟩ = "-0.012" := by decide

end Decimal

end RecordMapper
