import RecordMapper.Proofs.Reading
import RecordMapper.Session.Transaction

/-!
# Tokens and the statements of transactions

A savepoint token is one word to the scanner, so each statement that the transaction functions build
is read as the statement that they mean. Tokens with different spellings are different names to the
engine: their letters have a fixed case.
-/

namespace RecordMapper

/-! ## Tokens -/

namespace Token

/-- `S`, digits, `D`, digits. -/
def Formed (token : String) : Prop :=
  ∃ nonce depth : List Char, nonce ≠ [] ∧ depth ≠ [] ∧ (∀ c ∈ nonce, isDigit c = true) ∧
    (∀ c ∈ depth, isDigit c = true) ∧ token.toList = 'S' :: (nonce ++ 'D' :: depth)

theorem stops_at_D (depth : List Char) : Stops (· != 'D') ('D' :: depth) := by
  intro c hc
  cases hc
  rfl

theorem ne_D_of_isDigit {c : Char} (h : isDigit c = true) : (c != 'D') = true := by
  rw [bne_iff_ne]
  rintro rfl
  exact absurd h (by decide)

/-- The depth of a token is the number after `D`, if it is not too great. -/
theorem depth?_eq {token : String} {nonce depth : List Char} (hn : nonce ≠ []) (hd : depth ≠ [])
    (hns : ∀ c ∈ nonce, isDigit c = true) (hds : ∀ c ∈ depth, isDigit c = true)
    (h : token.toList = 'S' :: (nonce ++ 'D' :: depth)) :
    depth? token = if digitsValue depth ≤ maxDepth then some (digitsValue depth) else none := by
  have hne : ∀ c ∈ nonce, (c != 'D') = true := fun c hc => ne_D_of_isDigit (hns c hc)
  unfold depth?
  simp only [h, takeWhile_of_stops hne (stops_at_D depth), dropWhile_of_stops hne (stops_at_D depth)]
  rw [if_neg]
  simp only [Bool.or_eq_true, List.isEmpty_iff, Bool.not_eq_true', not_or, Bool.not_eq_false,
    List.all_eq_true]
  exact ⟨⟨⟨hn, hd⟩, hns⟩, hds⟩

theorem text_toList (nonce depth : Nat) :
    (text nonce depth).toList = 'S' :: (Nat.toDigits 10 nonce ++ 'D' :: Nat.toDigits 10 depth) := by
  unfold text
  simp only [String.toList_append, Nat.toString_eq_repr, Nat.toList_repr]
  rw [show "S".toList = ['S'] from rfl, show "D".toList = ['D'] from rfl]
  simp only [List.append_assoc, List.cons_append, List.nil_append]

theorem formed_text (nonce depth : Nat) : Formed (text nonce depth) :=
  ⟨_, _, Nat.toDigits_ne_nil, Nat.toDigits_ne_nil, fun _ => isDigit_of_mem_toDigits,
    fun _ => isDigit_of_mem_toDigits, text_toList nonce depth⟩

/-- A token tells the depth that it was made for, unless that is too great to be told. -/
theorem depth?_text (nonce depth : Nat) :
    depth? (text nonce depth) = if depth ≤ maxDepth then some depth else none := by
  rw [depth?_eq Nat.toDigits_ne_nil Nat.toDigits_ne_nil (fun _ => isDigit_of_mem_toDigits)
    (fun _ => isDigit_of_mem_toDigits) (text_toList nonce depth), digitsValue_toDigits]

theorem formed_of_depth? {token : String} {d : Nat} (h : depth? token = some d) : Formed token := by
  unfold depth? at h
  split at h
  · rename_i rest hrest
    simp only at h
    split at h
    · rename_i depth hdrop
      split at h
      · cases h
      · rename_i hc
        simp only [Bool.or_eq_true, List.isEmpty_iff, Bool.not_eq_true', not_or, Bool.not_eq_false,
          List.all_eq_true] at hc
        obtain ⟨⟨⟨hn, hd⟩, hns⟩, hds⟩ := hc
        refine ⟨_, depth, hn, hd, hns, hds, ?_⟩
        rw [hrest, ← hdrop, List.takeWhile_append_dropWhile]
    · cases h
  · cases h

theorem toLower_of_isDigit {c : Char} (h : isDigit c = true) : c.toLower = c := by
  rw [isDigit_eq, Char.isDigit_iff_toNat] at h
  have h9 : '9'.toNat = 57 := rfl
  have hA : 'A'.val.toNat = 65 := rfl
  have hc : c.toNat = c.val.toNat := rfl
  unfold Char.toLower
  rw [dif_neg]
  rintro ⟨hc', -⟩
  have := UInt32.le_iff_toNat_le.mp hc'
  omega

theorem toUpper_of_isDigit {c : Char} (h : isDigit c = true) : c.toUpper = c := by
  rw [isDigit_eq, Char.isDigit_iff_toNat] at h
  have h9 : '9'.toNat = 57 := rfl
  have ha : 'a'.val.toNat = 97 := rfl
  have hc : c.toNat = c.val.toNat := rfl
  unfold Char.toUpper
  rw [dif_neg]
  rintro ⟨hc', -⟩
  have := UInt32.le_iff_toNat_le.mp hc'
  omega

theorem map_toUpper_toLower_of_isDigit {cs : List Char} (h : ∀ c ∈ cs, isDigit c = true) :
    (cs.map Char.toLower).map Char.toUpper = cs := by
  rw [List.map_map]
  refine (List.map_congr_left fun c hc => ?_).trans (List.map_id cs)
  show c.toLower.toUpper = c
  rw [toLower_of_isDigit (h c hc), toUpper_of_isDigit (h c hc)]

/-- Tokens have letters of fixed case: they name the same savepoint only if they are equal. -/
theorem eq_of_sameFolded {a b : String} (ha : Formed a) (hb : Formed b)
    (h : sameFolded a b = true) :
    a = b := by
  have back : ∀ {token : String}, Formed token →
      (token.toList.map Char.toLower).map Char.toUpper = token.toList := by
    rintro token ⟨nonce, depth, -, -, hn, hd, ht⟩
    rw [ht, List.map_cons, List.map_cons, List.map_append, List.map_append, List.map_cons,
      List.map_cons, map_toUpper_toLower_of_isDigit hn, map_toUpper_toLower_of_isDigit hd]
    rfl
  have hl : a.toList.map Char.toLower = b.toList.map Char.toLower := by
    unfold sameFolded foldCase at h
    rw [beq_iff_eq] at h
    exact String.ofList_injective h
  rw [← String.toList_inj, ← back ha, ← back hb, hl]

theorem sameFolded_iff {a b : String} (ha : Formed a) (hb : Formed b) :
    sameFolded a b = true ↔ a = b :=
  ⟨eq_of_sameFolded ha hb, fun h => h ▸ sameFolded_refl a⟩

/-- A token is a word to the scanner. -/
theorem isName_of_formed {token : String} (h : Formed token) : Sql.isName token = true := by
  obtain ⟨nonce, depth, -, -, hn, hd, ht⟩ := h
  have hdigit : ∀ c, isDigit c = true → Sql.Lexeme.continuesName c = true := by
    intro c hc
    unfold Sql.Lexeme.continuesName
    rw [hc, Bool.or_true, Bool.true_or]
  refine Sql.isName_iff.mpr ⟨'S', nonce ++ 'D' :: depth, ht, by decide, fun c hc => ?_⟩
  rw [List.mem_append, List.mem_cons] at hc
  rcases hc with hc | rfl | hc
  · exact hdigit c (hn c hc)
  · decide
  · exact hdigit c (hd c hc)

/-- No word of the language has a digit in the second place. -/
theorem foldCase_ne_of_formed {token w : String} (h : Formed token)
    (hw : (w.toList[1]?).all (fun c => !isDigit c) = true) : (foldCase token == w) = false := by
  obtain ⟨nonce, depth, hne, -, hn, -, ht⟩ := h
  rw [beq_eq_false_iff_ne]
  rintro rfl
  unfold foldCase at hw
  rw [String.toList_ofList, ht] at hw
  obtain ⟨c, r, rfl⟩ := List.exists_cons_of_ne_nil hne
  have hc := hn c List.mem_cons_self
  simp [toLower_of_isDigit hc, hc] at hw

theorem not_reserved_of_formed {token : String} (h : Formed token) :
    Sql.Parser.reserved.contains (foldCase token) = false := by
  by_contra hc
  rw [Bool.not_eq_false, List.contains_iff_mem] at hc
  have hall : ∀ w ∈ Sql.Parser.reserved, (w.toList[1]?).all (fun c => !isDigit c) = true := by
    decide
  have := foldCase_ne_of_formed h (hall _ hc)
  rw [beq_self_eq_true] at this
  cases this

end Token

/-! ## Statements -/

namespace Sql

theorem stops_blank (rest : List Char) : Stops Lexeme.continuesName (' ' :: rest) := by
  rintro c ⟨⟩
  rfl

theorem stops_nil (p : Char → Bool) : Stops p [] := by
  rintro c ⟨⟩

def wordAt (w : String) (o : Nat) : Lexeme := ⟨.word w, w, o⟩

theorem Scans.wordBlank {w : String} (hw : isName w = true) {o : Nat} (rest : List Char) :
    Scans o (w.toList ++ [' ']) [wordAt w o] rest := by
  have := (Scans.word (o := o) hw (stops_blank rest) (by simp)).append Scans.space
  rwa [List.append_nil] at this

theorem Scans.lastWord {w : String} (hw : isName w = true) {o : Nat} :
    Scans o w.toList [wordAt w o] [] :=
  Scans.word hw (stops_nil _) (by simp)

theorem noZero_blank : NoZero " " := by decide

theorem ofText_one {w : String} (hw : isName w = true) : Lexeme.ofText w = [wordAt w 0] :=
  Scans.whole (noZero_of_isName hw) (.lastWord hw)

theorem ofText_two {v w : String} (hv : isName v = true) (hw : isName w = true) :
    ∃ p, Lexeme.ofText (v ++ " " ++ w) = [wordAt v 0, wordAt w p] := by
  have h := (Scans.wordBlank (o := 0) hv _).append (Scans.lastWord hw)
  rw [show v.toList ++ [' '] ++ w.toList = (v ++ " " ++ w).toList by simp] at h
  exact ⟨_, Scans.whole (by simp [noZero_of_isName, noZero_blank, hv, hw]) h⟩

theorem ofText_three {u v w : String} (hu' : isName u = true) (hv : isName v = true)
    (hw : isName w = true) :
    ∃ p q, Lexeme.ofText (u ++ " " ++ v ++ " " ++ w) = [wordAt u 0, wordAt v p, wordAt w q] := by
  have hlast := fun o => (Scans.wordBlank (o := o) hv _).append (Scans.lastWord hw)
  have hu := Scans.wordBlank (o := 0) hu' ((v.toList ++ [' '] ++ w.toList) ++ [])
  have h := hu.append (hlast _)
  rw [show u.toList ++ [' '] ++ (v.toList ++ [' '] ++ w.toList) =
    (u ++ " " ++ v ++ " " ++ w).toList by simp] at h
  exact ⟨_, _, Scans.whole (by simp [noZero_of_isName, noZero_blank, hu', hv, hw]) h⟩

theorem readStatement_words {text : String} {l : Lexeme} {ls : List Lexeme} {s : Statement}
    (h : Lexeme.ofText text = l :: ls) (hw : ∀ x ∈ l :: ls, ∃ w o, x = wordAt w o)
    (hp : Parser.statement text (l :: ls) = .ok (s, [])) :
    readStatement text = .ok (some s, {}) := by
  have hf : firstStatement text = l :: ls := by
    refine firstStatement_eq h fun x hx => ?_
    obtain ⟨w, o, rfl⟩ := hw x hx
    rfl
  have hlegal : ∀ x ∈ l :: ls, x.isIllegal = false := fun x hx => by
    obtain ⟨w, o, rfl⟩ := hw x hx
    rfl
  rw [readStatement_eq hf hlegal hp, Parameters.ofLexemes_others]
  intro x hx t ht
  obtain ⟨w, o, rfl⟩ := hw x hx
  cases ht

theorem isWord_wordAt (w text : String) (o : Nat) :
    Parser.isWord w (wordAt text o) = (foldCase text == w) := rfl

theorem name_token {token : String} (h : Token.Formed token) (o : Nat) :
    Parser.name [wordAt token o] = .ok (token, []) :=
  Parser.name_of_nameOf? (Parser.nameOf?_word (Token.not_reserved_of_formed h)) (fun _ => nofun) []

namespace Parser

theorem readStatement_begin :
    readStatement "begin transaction" = .ok (some (.begin .deferred), {}) := by
  obtain ⟨p, h⟩ := ofText_two (v := "begin") (w := "transaction") (by decide)
    (by decide)
  refine readStatement_words h (by simp) ?_
  have hv : foldCase "begin" = "begin" := by decide
  simp only [statement, choice_cons, isWord_wordAt, hv, String.reduceBEq,
    Bool.false_eq_true, if_false, beq_self_eq_true, if_true]
  rfl

theorem readStatement_commit : readStatement "commit" = .ok (some .commit, {}) := by
  refine readStatement_words (ofText_one (by decide)) (by simp) ?_
  have hv : foldCase "commit" = "commit" := by decide
  simp only [statement, choice_cons, isWord_wordAt, hv, String.reduceBEq,
    Bool.false_eq_true, if_false, beq_self_eq_true, if_true]
  rfl

theorem readStatement_rollback : readStatement "rollback" = .ok (some .rollback, {}) := by
  refine readStatement_words (ofText_one (by decide)) (by simp) ?_
  have hv : foldCase "rollback" = "rollback" := by decide
  simp only [statement, choice_cons, isWord_wordAt, hv, String.reduceBEq,
    Bool.false_eq_true, if_false, beq_self_eq_true, if_true]
  rfl

variable {token : String} (hf : Token.Formed token)

include hf

theorem readStatement_savepoint :
    readStatement ("savepoint" ++ " " ++ token) = .ok (some (.savepoint token), {}) := by
  obtain ⟨p, h⟩ := ofText_two (v := "savepoint") (by decide) (Token.isName_of_formed hf)
  refine readStatement_words h (by simp) ?_
  have hv : foldCase "savepoint" = "savepoint" := by decide
  simp only [statement, choice_cons, isWord_wordAt, hv, String.reduceBEq,
    Bool.false_eq_true, if_false, beq_self_eq_true, if_true]
  rw [bind_apply, name_token hf]
  rfl

theorem readStatement_release :
    readStatement ("release" ++ " " ++ token) = .ok (some (.release token), {}) := by
  obtain ⟨p, h⟩ := ofText_two (v := "release") (by decide) (Token.isName_of_formed hf)
  refine readStatement_words h (by simp) ?_
  have hv : foldCase "release" = "release" := by decide
  have hw : (foldCase token == "savepoint") = false :=
    Token.foldCase_ne_of_formed hf (by decide)
  simp only [statement, choice_cons, isWord_wordAt, hv, String.reduceBEq,
    Bool.false_eq_true, if_false, beq_self_eq_true, if_true]
  rw [bind_apply, takeWord_cons, ok_bind, isWord_wordAt, hw, bind_apply]
  show (name [wordAt token p]).bind _ = _
  rw [name_token hf]
  rfl

theorem readStatement_rollbackTo :
    readStatement ("rollback to" ++ " " ++ token) = .ok (some (.rollbackTo token), {}) := by
  obtain ⟨p, q, h⟩ := ofText_three (u := "rollback") (v := "to") (by decide)
    (by decide) (Token.isName_of_formed hf)
  rw [show "rollback to" ++ " " ++ token = "rollback" ++ " " ++ "to" ++ " " ++ token by simp]
  refine readStatement_words h (by simp) ?_
  have hu : foldCase "rollback" = "rollback" := by decide
  have hv : foldCase "to" = "to" := by decide
  have hw : (foldCase token == "savepoint") = false :=
    Token.foldCase_ne_of_formed hf (by decide)
  simp only [statement, choice_cons, isWord_wordAt, hu, String.reduceBEq,
    Bool.false_eq_true, if_false, beq_self_eq_true, if_true]
  have ht : transactionWord [wordAt "to" p, wordAt token q] =
      .ok ((), [wordAt "to" p, wordAt token q]) := by
    unfold transactionWord
    rw [choice_cons, isWord_wordAt, hv]
    rfl
  unfold Parser.rollback
  rw [bind_apply, ht, ok_bind, choice_cons, isWord_wordAt, hv, if_pos (by decide), bind_apply,
    takeWord_cons, ok_bind, isWord_wordAt, hw, bind_apply]
  show (name [wordAt token q]).bind _ = _
  rw [name_token hf]
  rfl

end Parser

end Sql

end RecordMapper
