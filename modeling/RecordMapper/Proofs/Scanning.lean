import Mathlib.Data.List.Basic
import RecordMapper.Sql.Parser

/-!
# Scanning pieces of a statement

How a text is cut into lexemes when it is put together from pieces.

1. `digitsValue_toDigits`: the digits of a number are read back as that number.
2. `Scans o cs ls rest`: standing at the place `o` before `rest`, the characters `cs` are the
   lexemes `ls`. The relation is closed under appending pieces (`Scans.append`).
3. One lemma for each kind of piece: blanks, words, quoted names, symbols, numbers, parameters.
-/

namespace RecordMapper

/-! ## Digits -/

theorem isDigit_eq (c : Char) : isDigit c = c.isDigit := by
  unfold isDigit Char.isDigit
  rw [Bool.eq_iff_iff]
  simp only [Bool.and_eq_true, decide_eq_true_eq, ge_iff_le, UInt32.le_iff_toNat_le, Char.le_def]

theorem digitsValue_toDigits (n : Nat) : digitsValue (Nat.toDigits 10 n) = n := by
  have h := Nat.ofDigitChars_ten_toDigits (n := n)
  rw [Nat.ofDigitChars_eq_foldl] at h
  exact h

theorem isDigit_of_mem_toDigits {n : Nat} {c : Char} (h : c ∈ Nat.toDigits 10 n) :
    isDigit c = true := by
  rw [isDigit_eq]
  exact Nat.isDigit_of_mem_toDigits (by omega) (by omega) h

/-! ## Maximal pieces -/

/-- A following text that does not go on with a class of characters. -/
def Stops (p : Char → Bool) (rest : List Char) : Prop := ∀ c, rest.head? = some c → p c = false

theorem takeWhile_of_stops {p : Char → Bool} {cs rest : List Char} (h : ∀ c ∈ cs, p c = true)
    (hr : Stops p rest) : (cs ++ rest).takeWhile p = cs := by
  rw [List.takeWhile_append_of_pos h]
  cases rest with
  | nil => simp
  | cons c r => simp [hr c rfl]

theorem dropWhile_of_stops {p : Char → Bool} {cs rest : List Char} (h : ∀ c ∈ cs, p c = true)
    (hr : Stops p rest) : (cs ++ rest).dropWhile p = rest := by
  rw [List.dropWhile_append_of_pos h]
  cases rest with
  | nil => rfl
  | cons c r => simp [hr c rfl]

theorem take_before (c : Char) (cs rest : List Char) :
    (c :: (cs ++ rest)).take ((cs ++ rest).length + 1 - rest.length) = c :: cs := by
  rw [List.length_append, show cs.length + rest.length + 1 - rest.length = cs.length + 1 by omega,
    List.take_succ_cons, List.take_left]

namespace Bytes

theorem lengthOf_nil : lengthOf [] = 0 := rfl

theorem lengthOf_cons (c : Char) (cs : List Char) :
    lengthOf (c :: cs) = c.utf8Size + lengthOf cs := rfl

theorem lengthOf_append (a b : List Char) : lengthOf (a ++ b) = lengthOf a + lengthOf b := by
  induction a with
  | nil => rw [List.nil_append, lengthOf_nil, Nat.zero_add]
  | cons c r ih => rw [List.cons_append, lengthOf_cons, lengthOf_cons, ih, Nat.add_assoc]

theorem lengthOf_pos {cs : List Char} (h : cs ≠ []) : 0 < lengthOf cs := by
  cases cs with
  | nil => exact absurd rfl h
  | cons c r =>
    rw [lengthOf_cons]
    have := Char.utf8Size_pos c
    omega

end Bytes

namespace Sql

open Lexeme

/-! ## Pieces -/

/-- At the place `o` and before `rest`, the characters `cs` are the lexemes `ls`. -/
def Scans (o : Nat) (cs : List Char) (ls : List Lexeme) (rest : List Char) : Prop :=
  ∃ k ≤ cs.length, ∀ n, scan (n + k) o (cs ++ rest) = ls ++ scan n (o + Bytes.lengthOf cs) rest

theorem not_isLetter_of_isDigit {c : Char} (h : isDigit c = true) : isLetter c = false := by
  rw [isDigit_eq] at h
  simp only [Char.isDigit, Bool.and_eq_true, decide_eq_true_eq, UInt32.le_iff_toNat_le,
    ge_iff_le] at h
  have : c.toNat = c.val.toNat := rfl
  have h0 : '0'.val.toNat = 48 := rfl
  have h9 : '9'.val.toNat = 57 := rfl
  have hA : 'A'.val.toNat = 65 := rfl
  have ha : 'a'.val.toNat = 97 := rfl
  have hne : c ≠ '_' := fun e => by subst e; exact absurd h (by decide)
  have hupper : c.isUpper = decide ('A'.val ≤ c.val ∧ c.val ≤ 'Z'.val) := rfl
  have hlower : c.isLower = (decide ('a'.val ≤ c.val) && decide (c.val ≤ 'z'.val)) := rfl
  have halpha : c.isAlpha = (c.isUpper || c.isLower) := rfl
  simp only [isLetter, halpha, hupper, hlower, Bool.or_eq_false_iff, Bool.and_eq_false_iff,
    beq_eq_false_iff_ne, decide_eq_false_iff_not, UInt32.le_iff_toNat_le]
  refine ⟨⟨⟨?_, Or.inl ?_⟩, hne⟩, ?_⟩
  · omega
  · omega
  · omega

/-- Whether a text is one word: a letter and characters that continue names. -/
def isName (w : String) : Bool :=
  match w.toList with
  | c :: cs => isLetter c && cs.all continuesName
  | [] => false

theorem isName_iff {w : String} : isName w = true ↔
    ∃ c cs, w.toList = c :: cs ∧ isLetter c = true ∧ ∀ d ∈ cs, continuesName d = true := by
  unfold isName
  cases h : w.toList with
  | nil => simp
  | cons c cs => simp

theorem noZero_of_isName {w : String} (h : isName w = true) : NoZero w := by
  obtain ⟨c, cs, hw, hc, hcs⟩ := isName_iff.mp h
  have hall : ∀ d ∈ c :: cs, continuesName d = true := List.forall_mem_cons.mpr
    ⟨by simp [continuesName, hc], hcs⟩
  unfold NoZero
  rw [hw]
  exact zeroless_of_forall (by decide) hall

namespace Scans

variable {o : Nat} {cs rest : List Char} {ls : List Lexeme}

theorem nil : Scans o [] [] rest := ⟨0, Nat.le_refl _, fun _ => rfl⟩

theorem append {as bs : List Char} {la lb : List Lexeme} (ha : Scans o as la (bs ++ rest))
    (hb : Scans (o + Bytes.lengthOf as) bs lb rest) : Scans o (as ++ bs) (la ++ lb) rest := by
  obtain ⟨j, hj, ha⟩ := ha
  obtain ⟨k, hk, hb⟩ := hb
  refine ⟨k + j, by rw [List.length_append]; omega, fun n => ?_⟩
  rw [List.append_assoc, ← Nat.add_assoc, ha, hb, List.append_assoc, Bytes.lengthOf_append,
    Nat.add_assoc]

/-- A whole text that scans up to its first zero character is cut into just these lexemes. -/
theorem ofText {text : String} (h : Scans 0 (beforeZero text.toList) ls []) :
    Lexeme.ofText text = ls := by
  unfold Lexeme.ofText
  generalize beforeZero text.toList = cs at h
  obtain ⟨k, hk, h⟩ := h
  have := h (cs.length + 1 - k)
  rw [List.append_nil, Nat.sub_add_cancel (by omega)] at this
  show scan (cs.length + 1) 0 cs = ls
  rw [this]
  cases cs.length + 1 - k <;> simp [scan]

theorem whole {text : String} (hz : NoZero text) (h : Scans 0 text.toList ls []) :
    Lexeme.ofText text = ls :=
  ofText (hz.beforeZero_eq.symm ▸ h)

theorem space : Scans o [' '] [] rest := by
  refine ⟨1, Nat.le_refl _, fun n => ?_⟩
  simp only [List.cons_append, List.nil_append, scan, show isSpace ' ' = true by decide, if_true]
  rw [show (' ' :: rest).take (rest.length + 1 - rest.length) = [' '] from take_before ' ' [] rest]

/-- What is neither blank nor comment is the lexeme that `tokenAt` reads. -/
theorem token {c : Char} {t : Token} (hs : isSpace c = false)
    (hd : c = '-' → (cs ++ rest).head? ≠ some '-') (hb : c = '/' → (cs ++ rest).head? ≠ some '*')
    (ht : tokenAt c (cs ++ rest) = (t, rest)) :
    Scans o (c :: cs) [⟨t, String.ofList (c :: cs), o⟩] rest := by
  refine ⟨1, by rw [List.length_cons]; omega, fun n => ?_⟩
  have h1 : (c == '-' && (cs ++ rest).head? == some '-') = false := by
    by_cases hc : c = '-'
    · simpa [hc] using hd hc
    · simp [hc]
  have h2 : (c == '/' && (cs ++ rest).head? == some '*') = false := by
    by_cases hc : c = '/'
    · simpa [hc] using hb hc
    · simp [hc]
  simp only [List.cons_append, scan, hs, h1, h2, ht, if_false, Bool.false_eq_true]
  rw [take_before, List.nil_append]

/-- A word stands alone before a character that does not continue names. -/
theorem word {w : String} (hw : isName w = true) (hr : Stops continuesName rest)
    (hq : rest.head? ≠ some '\'') : Scans o w.toList [⟨.word w, w, o⟩] rest := by
  obtain ⟨c, cs, hcs', hc, hcs⟩ := isName_iff.mp hw
  rw [hcs', show w = String.ofList (c :: cs) by rw [← hcs', String.ofList_toList]]
  have hne : ∀ d, isLetter d = false → c ≠ d := fun d hd h => by rw [h, hd] at hc; cases hc
  have hblob : ((cs ++ rest).head? == some '\'') = false := by
    cases cs with
    | nil => simpa using hq
    | cons d r =>
      have hd := hcs d List.mem_cons_self
      have : d ≠ '\'' := fun h => by rw [h] at hd; exact absurd hd (by decide)
      simpa using this
  have hdigit : isDigit c = false := by
    by_contra h
    rw [Bool.not_eq_false] at h
    exact absurd hc (by rw [not_isLetter_of_isDigit h]; decide)
  refine token ?_ (fun h => absurd h (hne _ (by decide))) (fun h => absurd h (hne _ (by decide))) ?_
  · simp only [isSpace, Bool.or_eq_false_iff, beq_eq_false_iff_ne]
    refine ⟨⟨⟨⟨hne _ (by decide), hne _ (by decide)⟩, hne _ (by decide)⟩, hne _ (by decide)⟩, ?_⟩
    exact fun h => hne (Char.ofNat 12) (by decide) (Char.toNat_inj.mp h)
  · unfold tokenAt
    have ht := takeWhile_of_stops hcs hr
    have hd := dropWhile_of_stops hcs hr
    simp only [beq_false_of_ne (hne '\'' (by decide)), beq_false_of_ne (hne '"' (by decide)),
      beq_false_of_ne (hne '`' (by decide)), beq_false_of_ne (hne '[' (by decide)),
      beq_false_of_ne (hne '.' (by decide)), beq_false_of_ne (hne '?' (by decide)),
      beq_false_of_ne (hne ':' (by decide)), beq_false_of_ne (hne '@' (by decide)),
      beq_false_of_ne (hne '$' (by decide)), beq_false_of_ne (hne '#' (by decide)),
      hdigit, hblob, hc, ht, hd, Bool.false_and, Bool.and_false, Bool.or_false, Bool.false_eq_true,
      if_true, if_false]

/-- A name between double quotes, with the quotes inside doubled. -/
theorem quoted (name : String) (hr : rest.head? ≠ some '"') :
    Scans o (quoteIdentifier name).toList [⟨.name name, quoteIdentifier name, o⟩] rest := by
  have h := Quoted.decode_encode '"' name.toList rest hr
  have ht : tokenAt '"' ((Quoted.encode '"' name.toList ++ ['"']) ++ rest) =
      (.name name, rest) := by
    rw [List.append_assoc]
    simp [tokenAt, quotedToken, h]
  have := token (o := o) (by decide) (fun h => absurd h (by decide)) (fun h => absurd h (by decide)) ht
  simpa only [quoteIdentifier, quoteWith, String.toList_ofList] using this

/-- A quoted name that ends at a zero character is not closed. -/
theorem unclosed {name : String} (h : ¬NoZero name) :
    ∃ spelling, Scans o (beforeZero (quoteIdentifier name).toList)
      [⟨.illegal, spelling, o⟩] [] := by
  have hcut : beforeZero (quoteIdentifier name).toList =
      '"' :: Quoted.encode '"' (beforeZero name.toList) := by
    have hencoded : ¬Zeroless (Quoted.encode '"' name.toList) :=
      (Quoted.zeroless_encode (by decide)).not.mpr h
    unfold quoteIdentifier quoteWith
    rw [String.toList_ofList, ← List.singleton_append, beforeZero_append (by decide),
      beforeZero_append_of_not hencoded, Quoted.beforeZero_encode (by decide)]
    rfl
  have ht : tokenAt '"' (Quoted.encode '"' (beforeZero name.toList) ++ []) = (.illegal, []) := by
    rw [List.append_nil]
    simp [tokenAt, quotedToken, Quoted.decode_encode_eq_none]
  rw [hcut]
  exact ⟨_, token (by decide) (fun h => absurd h (by decide)) (fun h => absurd h (by decide)) ht⟩

/-- A parameter that is a bare sign. -/
theorem parameter (hr : Stops isDigit rest) : Scans o ['?'] [⟨.parameter "?", "?", o⟩] rest := by
  have ht : tokenAt '?' ([] ++ rest) = (.parameter "?", rest) := by
    have h1 : rest.takeWhile isDigit = [] := takeWhile_of_stops (List.forall_mem_nil _) hr
    have h2 : rest.dropWhile isDigit = rest := dropWhile_of_stops (List.forall_mem_nil _) hr
    simp [tokenAt, h1, h2, show isDigit '?' = false by decide]
  exact token (by decide) (fun h => absurd h (by decide)) (fun h => absurd h (by decide)) ht

theorem string {c : Char} (hc : c ≠ '\'') (hr : rest.head? ≠ some '\'') :
    Scans o ['\'', c, '\''] [⟨.string (String.singleton c), String.ofList ['\'', c, '\''], o⟩]
      rest := by
  have h := Quoted.decode_encode '\'' [c] rest hr
  have ht : tokenAt '\'' ([c, '\''] ++ rest) = (.string (String.singleton c), rest) := by
    simp only [Quoted.encode, if_neg hc, List.cons_append, List.nil_append] at h
    simp only [tokenAt, quotedToken, beq_self_eq_true, if_true, List.cons_append,
      List.nil_append, h, String.singleton_eq_ofList]
  exact token (by decide) (fun h => absurd h (by decide)) (fun h => absurd h (by decide)) ht

end Scans

end Sql

end RecordMapper
