import RecordMapper.Proofs.Scanning

/-!
# Reading lexemes

How the parsers act on a list of lexemes: one lemma for each combinator, stated on the lexeme at the
head. Whole statements are read in two steps: `Scans` gives the lexemes, and the parsers go through
them from left to right.
-/

namespace RecordMapper.Sql

namespace Parser

variable {α β : Type}

/-! ## Plumbing -/

theorem bind_apply (p : Parser α) (f : α → Parser β) (ls : List Lexeme) :
    (p >>= f) ls = (p ls).bind fun x => f x.1 x.2 := (rfl)

theorem pure_apply (a : α) (ls : List Lexeme) : (pure a : Parser α) ls = .ok (a, ls) := (rfl)

theorem ok_bind {ε : Type} (a : α) (f : α → Except ε β) :
    (Except.ok a : Except ε α).bind f = f a := (rfl)

theorem ite_apply (c : Prop) [Decidable c] (p q : Parser α) (ls : List Lexeme) :
    (if c then p else q) ls = if c then p ls else q ls := by split <;> rfl

/-! ## Single lexemes -/

theorem peek_cons (l : Lexeme) (ls : List Lexeme) : peek (l :: ls) = .ok (some l, l :: ls) := (rfl)

theorem next_cons (l : Lexeme) (ls : List Lexeme) : next (l :: ls) = .ok (l, ls) := (rfl)

theorem ahead_cons (test : Lexeme → Bool) (l : Lexeme) (ls : List Lexeme) :
    ahead test (l :: ls) = .ok (test l, l :: ls) := (rfl)

theorem takeIf_cons (test : Lexeme → Bool) (l : Lexeme) (ls : List Lexeme) :
    takeIf test (l :: ls) = .ok (if test l then (true, ls) else (false, l :: ls)) := by
  unfold takeIf
  rw [bind_apply, ahead_cons, ok_bind, ite_apply]
  cases h : test l
  · rfl
  · rfl

theorem takeWord_cons (w : String) (l : Lexeme) (ls : List Lexeme) :
    takeWord w (l :: ls) = .ok (if isWord w l then (true, ls) else (false, l :: ls)) :=
  takeIf_cons _ l ls

theorem choice_cons (w : String) (p q : Parser α) (l : Lexeme) (ls : List Lexeme) :
    (do if ← takeWord w then p else q : Parser α) (l :: ls) =
      if isWord w l then p ls else q (l :: ls) := by
  rw [bind_apply, takeWord_cons, ok_bind]
  cases isWord w l <;> rfl

theorem takeWord_nil (w : String) : takeWord w [] = .ok (false, []) := (rfl)

theorem takeSymbol_cons (s : String) (l : Lexeme) (ls : List Lexeme) :
    takeSymbol s (l :: ls) = .ok (if isSymbol s l then (true, ls) else (false, l :: ls)) :=
  takeIf_cons _ l ls

theorem demand_cons {test : Lexeme → Bool} {l : Lexeme} (h : test l = true) (ls : List Lexeme) :
    demand test (l :: ls) = .ok ((), ls) := by
  unfold demand
  rw [bind_apply, takeIf_cons, ok_bind, if_pos h]
  rfl

theorem word_cons {w : String} {l : Lexeme} (h : isWord w l = true) (ls : List Lexeme) :
    word w (l :: ls) = .ok ((), ls) := demand_cons h ls

theorem symbol_cons {s : String} {l : Lexeme} (h : isSymbol s l = true) (ls : List Lexeme) :
    symbol s (l :: ls) = .ok ((), ls) := demand_cons h ls

/-! ## Words -/

theorem isWord_word (w text spelling : String) (o : Nat) :
    isWord w ⟨.word text, spelling, o⟩ = (foldCase text == w) := (rfl)

theorem isWord_other {w : String} {l : Lexeme} (h : ∀ text, l.token ≠ .word text) :
    isWord w l = false := by
  unfold isWord
  split
  · rename_i text ht
    exact absurd ht (h text)
  · rfl

theorem nameOf?_word {text spelling : String} {o : Nat}
    (h : reserved.contains (foldCase text) = false) :
    nameOf? ⟨.word text, spelling, o⟩ = some text := by
  unfold nameOf?
  simp only [h, Bool.false_eq_true, if_false]

theorem name_of_nameOf? {l : Lexeme} {text : String} (h : nameOf? l = some text)
    (hs : ∀ s, l.token ≠ .string s) (ls : List Lexeme) : name (l :: ls) = .ok (text, ls) := by
  unfold name
  rw [bind_apply, peek_cons, ok_bind]
  cases ht : l.token with
  | string s => exact absurd ht (hs s)
  | _ => simp only [h, ht, bind_apply, next_cons, ok_bind, pure_apply]

end Parser

/-! ## Whole statements -/

/-- Lexemes without an end mark are the first statement. -/
theorem firstStatement_eq {text : String} {ls : List Lexeme} (h : Lexeme.ofText text = ls)
    (hs : ∀ l ∈ ls, Parser.isSymbol ";" l = false) : firstStatement text = ls := by
  unfold firstStatement
  have hd : ls.dropWhile (Parser.isSymbol ";") = ls := by
    cases ls with
    | nil => rfl
    | cons l r => rw [List.dropWhile_cons, hs l List.mem_cons_self]; rfl
  have ht : ls.takeWhile (fun l => !Parser.isSymbol ";" l) = ls := by
    have hp : ∀ l ∈ ls, (!Parser.isSymbol ";" l) = true := fun l hl => by rw [hs l hl]; rfl
    calc ls.takeWhile (fun l => !Parser.isSymbol ";" l)
        = (ls ++ []).takeWhile (fun l => !Parser.isSymbol ";" l) := by rw [List.append_nil]
      _ = ls := by rw [List.takeWhile_append_of_pos hp, List.takeWhile_nil, List.append_nil]
  rw [h]
  simp only [hd, ht, List.drop_length, List.take_nil, List.append_nil]

section Legal

variable {α : Type} {ls : List Lexeme} {read : Except SyntaxFault α}

theorem legally_of_legal (h : ∀ l ∈ ls, l.isIllegal = false) : legally ls read = read := by
  have hnone : ls.find? Lexeme.isIllegal = none :=
    List.find?_eq_none.mpr fun l hl => Bool.eq_false_iff.mp (h l hl)
  unfold legally
  rw [hnone]
  exact bind_pure read

/-- Where a lexeme is illegal, nothing is read. -/
theorem legally_of_illegal {l : Lexeme} (hl : l ∈ ls) (h : l.isIllegal = true) :
    ∃ fault, legally ls read = .error fault := by
  cases read with
  | error fault => exact ⟨fault, rfl⟩
  | ok a =>
    cases hfind : ls.find? Lexeme.isIllegal with
    | none => exact absurd h (List.find?_eq_none.mp hfind l hl)
    | some x =>
      refine ⟨.near x, ?_⟩
      simp only [legally, hfind]
      rfl

theorem of_legally {a : α} (h : legally ls read = .ok a) : read = .ok a := by
  cases read with
  | error fault => cases h
  | ok b =>
    simp only [legally] at h
    split at h
    · exact h
    · cases h

end Legal

/-- A statement that uses up its lexemes, all of them legal, is what is read. -/
theorem readStatement_eq {text : String} {l : Lexeme} {ls : List Lexeme} {s : Statement}
    (h : firstStatement text = l :: ls) (hl : ∀ x ∈ l :: ls, x.isIllegal = false)
    (hp : Parser.statement text (l :: ls) = .ok (s, [])) :
    readStatement text = .ok (some s, Parameters.ofLexemes (l :: ls)) := by
  unfold readStatement
  rw [h]
  refine (legally_of_legal hl).trans ?_
  simp only [hp, bind, Except.bind]
  rfl

/-- Where a lexeme of the first statement is illegal, no statement is read. -/
theorem readStatement_error {text : String} {l : Lexeme} (hl : l ∈ firstStatement text)
    (h : l.isIllegal = true) : ∃ fault, readStatement text = .error fault := by
  unfold readStatement
  cases hs : firstStatement text with
  | nil =>
    rw [hs] at hl
    cases hl
  | cons x xs =>
    rw [hs] at hl
    exact legally_of_illegal hl h

/-- How a text is read that has a zero character in a quoted name only: as a statement where it has
none, and not at all otherwise. -/
structure ReadsAs (text : String) (x : Option Statement × Parameters) : Prop where
  read : NoZero text → readStatement text = .ok x
  refused : ¬NoZero text → ∃ fault, readStatement text = .error fault

/-- Such a text that is read has no zero character. -/
theorem ReadsAs.of_ok {text : String} {x y : Option Statement × Parameters} (h : ReadsAs text x)
    (hy : readStatement text = .ok y) : NoZero text ∧ y = x := by
  have hz : NoZero text := by
    by_contra hz
    obtain ⟨fault, hf⟩ := h.refused hz
    cases hf.symm.trans hy
  exact ⟨hz, Except.ok.inj (hy.symm.trans (h.read hz))⟩

namespace Parameters

theorem add_other {p : Parameters} {l : Lexeme} (h : ∀ text, l.token ≠ .parameter text) :
    p.add l = p := by
  unfold add
  cases ht : l.token with
  | parameter text => exact absurd ht (h text)
  | _ => rfl

theorem foldl_add_others {ls : List Lexeme} (p : Parameters)
    (h : ∀ l ∈ ls, ∀ text, l.token ≠ .parameter text) : ls.foldl add p = p := by
  induction ls with
  | nil => rfl
  | cons l r ih =>
    rw [List.foldl_cons, add_other (h l List.mem_cons_self)]
    exact ih fun l hl => h l (List.mem_cons_of_mem _ hl)

/-- A statement without parameters has none. -/
theorem ofLexemes_others {ls : List Lexeme} (h : ∀ l ∈ ls, ∀ text, l.token ≠ .parameter text) :
    ofLexemes ls = {} := foldl_add_others {} h

end Parameters

end RecordMapper.Sql
