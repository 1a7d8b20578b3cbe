import RecordMapper.Proofs.DefinitionTexts
import RecordMapper.Proofs.RoundTrips
import RecordMapper.Proofs.CellOrder

/-!
# Cells of a column

A column prefers a class, and what is stored in it is brought to that class.

1. `Cell.Settled`: a cell is as the column stores it. Such cells are compared as they are.
2. `Numeral.mem_of_read`: a sign that is part of no numeral stays behind it. So a timestamp in text
   is no number.
3. `Column.settled`: what a field carries is already in the class that its column prefers.
-/

namespace RecordMapper

/-! ## Settled cells -/

namespace Cell

theorem numericText_ofFloat (x : Float) : numericText (ofFloat x) = ofFloat x := by
  unfold ofFloat
  split <;> rfl

theorem numericText_ofNumeral (n : Numeral) : numericText (ofNumeral n) = ofNumeral n := by
  unfold ofNumeral
  split
  · split
    · rfl
    · exact numericText_ofFloat _
  · exact numericText_ofFloat _

theorem numericText_numericText (c : Cell) : numericText (numericText c) = numericText c := by
  cases c with
  | text s =>
    cases h : wholeNumber? s with
    | none =>
      have hs : numericText (text s) = text s := congrArg (·.getD (text s)) h
      rw [hs, hs]
    | some x =>
      have hs : numericText (text s) = x := congrArg (·.getD (text s)) h
      rw [hs]
      unfold wholeNumber? at h
      split at h
      · split at h
        · cases h
          exact numericText_ofNumeral _
        · cases h
      · cases h
  | _ => rfl

theorem integralReal_cases (x : Float) :
    (∃ i, integralReal x = integer i) ∨ integralReal x = real x := by
  unfold integralReal
  split
  · extract_lets i
    split
    · exact .inl ⟨_, rfl⟩
    · exact .inr rfl
  · exact .inr rfl

/-- A cell as a column of the affinity stores it. -/
def Settled (a : Affinity) (c : Cell) : Prop := c.stored a = c

instance (a : Affinity) (c : Cell) : Decidable (c.Settled a) := inferInstanceAs (Decidable (_ = _))

variable {a : Affinity} {x y : Cell}

theorem settled_null (a : Affinity) : null.Settled a := by cases a <;> rfl

theorem numericText_stored (ha : a.isNumeric = true) (c : Cell) :
    numericText (c.stored a) = c.stored a := by
  have hc := numericText_numericText c
  have hnumeric : numericText (c.stored .numeric) = c.stored .numeric := by
    unfold stored
    cases hd : numericText c with
    | real x =>
      rcases integralReal_cases x with ⟨i, hi⟩ | hx
      · simp only [hi]
        rfl
      · simp only [hx]
        rfl
    | text s =>
      rw [hd] at hc
      exact hc
    | _ => rfl
  cases a with
  | blob => cases ha
  | text => cases ha
  | numeric => exact hnumeric
  | integer => exact hnumeric
  | real =>
    unfold stored
    cases hd : numericText c with
    | integer i => exact numericText_ofFloat _
    | text s =>
      rw [hd] at hc
      exact hc
    | _ => rfl

/-- A column of numbers stores a text that spells a number as that number. -/
theorem stored_numericText (ha : a.isNumeric = true) (c : Cell) :
    (numericText c).stored a = c.stored a := by
  have hc := numericText_numericText c
  unfold stored
  cases a with
  | blob => cases ha
  | text => cases ha
  | _ => rw [hc]

theorem text_stored (ha : a.isNumeric = true) {s : String} (hs : numericText (text s) = text s) :
    (text s).stored a = text s := by
  unfold stored
  cases a with
  | blob => cases ha
  | text => cases ha
  | _ => rw [hs]

theorem settled_stored (a : Affinity) (c : Cell) : (c.stored a).Settled a := by
  have hc := numericText_numericText c
  have hnumeric : (c.stored .numeric).Settled .numeric := by
    unfold Settled
    rw [← stored_numericText rfl c]
    cases hd : numericText c with
    | real x =>
      have hx : (real x).stored .numeric = integralReal x := rfl
      rw [hx]
      rcases integralReal_cases x with ⟨i, hi⟩ | hi
      · rw [hi]
        rfl
      · rw [hi, hx, hi]
    | text s =>
      rw [hd] at hc
      rw [text_stored rfl hc, text_stored rfl hc]
    | _ => rfl
  cases a with
  | blob => rfl
  | text => cases c <;> rfl
  | numeric => exact hnumeric
  | integer => exact hnumeric
  | real =>
    unfold Settled
    rw [← stored_numericText rfl c]
    cases hd : numericText c with
    | integer i =>
      show (ofFloat _).stored .real = ofFloat _
      unfold ofFloat
      split <;> rfl
    | text s =>
      rw [hd] at hc
      rw [text_stored rfl hc, text_stored rfl hc]
    | _ => rfl

/-- Two cells of a column are compared as they are. -/
theorem comparable_settled (hx : x.Settled a) (hy : y.Settled a) :
    comparable (some a) x y = (x, y) := by
  have hnumeric : a.isNumeric = true → (numericText x, numericText y) = (x, y) := by
    intro ha
    have hx' := numericText_stored ha x
    have hy' := numericText_stored ha y
    rw [hx] at hx'
    rw [hy] at hy'
    rw [hx', hy']
  cases a with
  | blob => rfl
  | text =>
    cases x with
    | integer i => cases hx
    | real x => cases hx
    | _ =>
      cases y with
      | integer i => cases hy
      | real y => cases hy
      | _ => rfl
  | numeric => exact hnumeric rfl
  | integer => exact hnumeric rfl
  | real => exact hnumeric rfl

end Cell

/-! ## Texts that are no numbers -/

namespace Numeral

variable {c : Char} {cs rest : List Char}

/-- A character that no numeral has. -/
def Foreign (c : Char) : Prop := isDigit c = false ∧ c ≠ '-' ∧ c ≠ '+' ∧ c ≠ '.' ∧ c ≠ 'e' ∧ c ≠ 'E'

instance (c : Char) : Decidable (Foreign c) := inferInstanceAs (Decidable (_ ∧ _))

theorem mem_dropWhile {p : Char → Bool} (h : c ∈ cs) (hp : p c = false) : c ∈ cs.dropWhile p := by
  rw [← List.takeWhile_append_dropWhile (p := p) (l := cs), List.mem_append] at h
  rcases h with h | h
  · rw [List.mem_takeWhile_imp h] at hp
    cases hp
  · exact h

theorem mem_sign (h : c ∈ cs) (hc : Foreign c) : c ∈ (sign cs).2 := by
  unfold sign
  split
  · exact (List.mem_cons.mp h).resolve_left hc.2.1
  · exact (List.mem_cons.mp h).resolve_left hc.2.2.1
  · exact h

theorem mem_exponentPart {x : Int} (h : c ∈ cs) (hc : Foreign c)
    (hx : exponentPart cs = some (x, rest)) :
    c ∈ rest := by
  unfold exponentPart at hx
  split at hx
  · rename_i d r
    split at hx
    · rename_i he
      have hd : c ≠ d := by
        rintro rfl
        exact he.elim hc.2.2.2.2.1 hc.2.2.2.2.2
      have hr : c ∈ (sign r).2.dropWhile isDigit :=
        mem_dropWhile (mem_sign ((List.mem_cons.mp h).resolve_left hd) hc) hc.1
      simp only at hx
      split at hx
      · cases hx
      · cases hx
        exact hr
    · cases hx
  · cases hx

theorem mem_exponent (h : c ∈ cs) (hc : Foreign c) :
    c ∈ (match exponentPart cs with
      | some (x, r) => (true, x, r)
      | none => (false, 0, cs) : Bool × Int × List Char).2.2 := by
  split
  · rename_i hx
    exact mem_exponentPart h hc hx
  · exact h

/-- What no numeral has stays behind the numeral. -/
theorem mem_of_read {n : Numeral} (h : c ∈ cs) (hc : Foreign c) (hr : read cs = some (n, rest)) :
    c ∈ rest := by
  have hwhole : c ∈ (sign cs).2.dropWhile isDigit := mem_dropWhile (mem_sign h hc) hc.1
  unfold read at hr
  simp only at hr
  split at hr
  · rename_i r hpoint
    rw [hpoint] at hwhole
    have hfraction : c ∈ r.dropWhile isDigit :=
      mem_dropWhile ((List.mem_cons.mp hwhole).resolve_left hc.2.2.2.1) hc.1
    dsimp only at hr
    split at hr
    · cases hr
    · obtain ⟨-, rfl⟩ := Prod.mk.inj (Option.some.inj hr)
      exact mem_exponent hfraction hc
  · dsimp only at hr
    split at hr
    · cases hr
    · obtain ⟨-, rfl⟩ := Prod.mk.inj (Option.some.inj hr)
      exact mem_exponent hwhole hc

end Numeral

/-- A text with a sign that no numeral has is no number. -/
theorem Cell.wholeNumber?_foreign {s : String} {c : Char} (h : c ∈ s.toList)
    (hc : Numeral.Foreign c) (hspace : isSpace c = false) : wholeNumber? s = none := by
  have hmem : c ∈ s.toList.dropWhile isSpace := Numeral.mem_dropWhile h hspace
  unfold wholeNumber?
  split
  · rename_i hr
    have hrest := Numeral.mem_of_read hmem hc hr
    rw [if_neg]
    intro hall
    rw [List.all_eq_true.mp hall c hrest] at hspace
    cases hspace
  · rfl

theorem Timestamp.mem_storedText (t : Timestamp) : 'T' ∈ t.storedText.toList := by
  unfold storedText
  simp only [String.toList_append, List.mem_append]
  exact .inl (.inl (.inl (.inr (by decide))))

/-! ## Types of columns -/

namespace Affinity

variable {text part : List Char}

theorem hasPart_eq_false {c : Char} (hp : part.head? = some c) (h : c ∉ text) :
    hasPart text part = false := by
  obtain ⟨rest, rfl⟩ : ∃ rest, part = c :: rest := List.head?_eq_some_iff.mp hp
  induction text with
  | nil => rfl
  | cons a r ih =>
    unfold hasPart
    rw [List.mem_cons, not_or] at h
    rw [ih h.2, Bool.or_false, List.isPrefixOf_cons_cons, beq_false_of_ne h.1, Bool.false_and]

theorem hasPart_append (more : List Char) (h : hasPart text part = true) :
    hasPart (text ++ more) part = true := by
  induction text with
  | nil =>
    obtain rfl : part = [] := List.isEmpty_iff.mp h
    cases more <;> rfl
  | cons a r ih =>
    unfold hasPart at h
    rw [List.cons_append]
    unfold hasPart
    rcases Bool.or_eq_true_iff.mp h with h | h
    · have hprefix : part <+: a :: (r ++ more) :=
        (List.isPrefixOf_iff_prefix.mp h).trans (List.prefix_append _ _)
      rw [List.isPrefixOf_iff_prefix.mpr hprefix, Bool.true_or]
    · rw [ih h, Bool.or_true]

theorem toUpper_digit {d : Char} (h : isDigit d = true) : d.toUpper = d := by
  unfold Char.toUpper
  rw [dif_neg]
  rintro ⟨hlow, -⟩
  have hle : d.val ≤ '9'.val := of_decide_eq_true (Bool.and_eq_true_iff.mp h).2
  exact absurd (UInt32.le_trans hlow hle) (by decide)

theorem ofType_sized (n : Nat) : ofType ("varchar(" ++ toString n ++ ")") = .text := by
  have hlist : ("varchar(" ++ toString n ++ ")").toList.map Char.toUpper =
      "VARCHAR(".toList ++ ((Nat.toDigits 10 n) ++ [')']) := by
    have hupper : (Nat.toDigits 10 n).map Char.toUpper = Nat.toDigits 10 n := by
      conv_rhs => rw [← List.map_id (Nat.toDigits 10 n)]
      exact List.map_congr_left fun d hd => toUpper_digit (isDigit_of_mem_toDigits hd)
    have hdigits : (toString n).toList = Nat.toDigits 10 n := String.toList_ofList
    rw [String.toList_append, String.toList_append, List.map_append, List.map_append,
      List.append_assoc, hdigits, hupper]
    rfl
  have hno : 'I' ∉ "VARCHAR(".toList ++ ((Nat.toDigits 10 n) ++ [')']) := by
    rw [List.mem_append, List.mem_append, not_or, not_or]
    exact ⟨by decide, fun h => absurd (isDigit_of_mem_toDigits h) (by decide), by decide⟩
  have hint : hasPart ("VARCHAR(".toList ++ ((Nat.toDigits 10 n) ++ [')'])) "INT".toList = false :=
    hasPart_eq_false rfl hno
  have hchar : hasPart ("VARCHAR(".toList ++ ((Nat.toDigits 10 n) ++ [')'])) "CHAR".toList = true :=
    hasPart_append _ (by decide)
  unfold ofType
  rw [hlist]
  simp only [hint, hchar]
  rfl

end Affinity

namespace Content

variable {ticks : Bool} {c : Content} {v : Value} {cell : Cell} {size : Option Nat} {type : String}

theorem of_map_integer_settled {x : Except TypeFault Int64} (h : x.map .integer = .ok cell) :
    cell.Settled .integer := by
  obtain ⟨n, -, rfl⟩ := of_map_integer h
  rfl

theorem columnType_integer {t : DataType} (hi : t.isInteger = true)
    (ht : t.columnType ticks size = some type) : type = "integer" ∨ type = "bigint" := by
  cases t with
  | int8 | int16 | int32 | uint8 | uint16 => exact .inl (Option.some.inj ht).symm
  | uint32 | int64 => exact .inr (Option.some.inj ht).symm
  | _ => cases hi

/-- What a field carries is in the class that a column of its type prefers. -/
theorem Carries.settled (hv : c.Carries v) (hc : v.toCell ticks = .ok cell)
    (ht : c.dataType.columnType ticks size = some type) : cell.Settled (Affinity.ofType type) := by
  have hinteger : Affinity.ofType "integer" = .integer := by decide
  have hbigint : Affinity.ofType "bigint" = .integer := by decide
  cases hv with
  | bool b =>
    cases ht
    cases hc
    rw [hinteger]
    rfl
  | int hi i =>
    cases hc
    have haffinity : Affinity.ofType type = .integer := by
      rcases columnType_integer hi ht with rfl | rfl
      · exact hinteger
      · exact hbigint
    rw [haffinity]
    rfl
  | text s =>
    cases hc
    have haffinity : Affinity.ofType type = .text := by
      cases size with
      | none =>
        cases ht
        decide
      | some n =>
        cases ht
        exact Affinity.ofType_sized n
    rw [haffinity]
    rfl
  | blob bytes =>
    cases hc
    cases ht
    have haffinity : Affinity.ofType "blob" = .blob := by decide
    rw [haffinity]
    rfl
  | interval d =>
    cases ht
    rw [hbigint]
    exact of_map_integer_settled hc
  | timestamp t =>
    cases ticks with
    | true =>
      obtain rfl : "bigint" = type := Option.some.inj ht
      rw [hbigint]
      exact of_map_integer_settled hc
    | false =>
      obtain rfl : "datetime" = type := Option.some.inj ht
      cases hc
      have haffinity : Affinity.ofType "datetime" = .numeric := by decide
      have hnone := Cell.wholeNumber?_foreign t.mem_storedText (by decide) (by decide)
      rw [haffinity]
      unfold Cell.Settled Cell.stored Cell.numericText
      simp only [hnone]
      rfl
  | offsetTimestamp t =>
    cases ht
    rw [hbigint]
    exact of_map_integer_settled hc
  | uuid u =>
    cases hc
    cases ht
    have haffinity : Affinity.ofType "varchar(36)" = .text := by decide
    rw [haffinity]
    rfl
  | variant e i =>
    cases ht
    cases hc
    rw [hinteger]
    rfl

/-- What a field of a type carries that is declared as an integer is stored as one. -/
theorem Carries.integer (hv : c.Carries v) (hc : v.toCell ticks = .ok cell)
    (ht : c.dataType.columnType ticks size = some "integer") : ∃ i, cell = .integer i := by
  cases hv with
  | bool b => exact ⟨_, (Except.ok.inj hc).symm⟩
  | int _ _ => exact ⟨_, (Except.ok.inj hc).symm⟩
  | variant e i => exact ⟨_, (Except.ok.inj hc).symm⟩
  | text s =>
    cases size with
    | none => exact absurd (Option.some.inj ht) (by decide)
    | some n =>
      have hhead := congrArg (fun s : String => s.toList.head?) (Option.some.inj ht)
      rw [String.toList_append, String.toList_append] at hhead
      cases hhead
  | blob bytes => exact absurd (Option.some.inj ht) (by decide)
  | interval d => exact absurd (Option.some.inj ht) (by decide)
  | timestamp t => cases ticks <;> exact absurd (Option.some.inj ht) (by decide)
  | offsetTimestamp t => exact absurd (Option.some.inj ht) (by decide)
  | uuid u => exact absurd (Option.some.inj ht) (by decide)

theorem Carries.of_isInteger (hv : c.Carries v) (ht : c.dataType.isInteger = true) :
    ∃ i, v = .int i := by
  cases hv with
  | int _ _ => exact ⟨_, rfl⟩
  | variant e i => exact ⟨_, rfl⟩
  | _ => cases ht

end Content

namespace Column

variable {c : Column} {ticks : Bool} {v : Value} {cell : Cell} {type : String}

/-- What a column carries is in the class that its type prefers. -/
theorem settled (hauto : c.autoIncrement = true → c.dataType.isInteger = true)
    (hv : c.type.Carries v) (hc : v.toCell ticks = .ok cell)
    (ht : c.storedType? ticks = some type) :
    cell.Settled (Affinity.ofType type) := by
  rcases hv with ⟨-, rfl⟩ | hv
  · cases hc
    exact Cell.settled_null _
  · unfold storedType? at ht
    split at ht
    · rename_i ha
      cases ht
      obtain ⟨i, rfl⟩ := hv.of_isInteger (hauto ha)
      cases hc
      have haffinity : Affinity.ofType "integer" = .integer := by decide
      rw [haffinity]
      rfl
    · exact hv.settled hc ht

/-- What a column of integers carries is null or an integer. -/
theorem null_or_integer (hauto : c.autoIncrement = true → c.dataType.isInteger = true)
    (hv : c.type.Carries v) (hc : v.toCell ticks = .ok cell)
    (ht : c.storedType? ticks = some "integer") : cell = .null ∨ ∃ i, cell = .integer i := by
  rcases hv with ⟨-, rfl⟩ | hv
  · cases hc
    exact .inl rfl
  · refine .inr ?_
    unfold storedType? at ht
    split at ht
    · rename_i ha
      obtain ⟨i, rfl⟩ := hv.of_isInteger (hauto ha)
      exact ⟨i, (Except.ok.inj hc).symm⟩
    · exact hv.integer hc ht

end Column

end RecordMapper
