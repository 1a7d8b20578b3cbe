import RecordMapper.Proofs.Reading

/-!
# Reading operands

How the parser of expressions acts on the lexemes of a condition: one lemma for each form, stated on
what its parts are read as. Each step of the parser takes one unit of fuel.
-/

namespace RecordMapper.Sql

namespace Parser

variable {fuel power : Nat} {a b : Scalar} {l : Lexeme} {ls r r' : List Lexeme}

/-! ## Symbols -/

theorem not_isWord_of_isSymbol {s : String} (h : isSymbol s l = true) (w : String) :
    isWord w l = false :=
  isWord_other fun text ht => by
    unfold isSymbol at h
    rw [ht, beq_iff_eq] at h
    cases h

theorem token_of_isSymbol {s : String} (h : isSymbol s l = true) : l.token = .symbol s :=
  beq_iff_eq.mp h

theorem not_isSymbol_of_isSymbol {s s' : String} (h : isSymbol s l = true) (hne : s ≠ s') :
    isSymbol s' l = false := by
  unfold isSymbol
  rw [token_of_isSymbol h, beq_eq_false_iff_ne]
  exact fun he => hne (Token.symbol.inj he)

/-! ## Ends of operands -/

/-- A lexeme behind which no operand goes on: no operator and no sign of a call or a column. -/
structure Halting (l : Lexeme) : Prop where
  operator : binaryOperator? l = none
  collate : isWord "collate" l = false
  trailing : ∀ after, trailing? l after = none
  call : isSymbol "(" l = false
  column : isSymbol "." l = false
  escape : isWord "escape" l = false

/-- The lexemes after an operand do not go on with it. -/
def Halts (r : List Lexeme) : Prop := ∀ l, r.head? = some l → Halting l

/-- The lexemes after an operand do not make it a call or the table of a column. -/
def Closes (r : List Lexeme) : Prop :=
  ∀ l, r.head? = some l → isSymbol "(" l = false ∧ isSymbol "." l = false

theorem Halts.closes (h : Halts r) : Closes r := fun l hl => ⟨(h l hl).call, (h l hl).column⟩

theorem halts_nil : Halts [] := nofun

theorem halts_cons (h : Halting l) : Halts (l :: r) := by
  rintro l' ⟨⟩
  exact h

theorem closes_cons (h : isSymbol "(" l = false ∧ isSymbol "." l = false) : Closes (l :: r) := by
  rintro l' ⟨⟩
  exact h

theorem trailing?_symbol {s : String} (h : isSymbol s l = true) (after : Option Lexeme) :
    trailing? l after = none := by
  unfold trailing?
  simp only [not_isWord_of_isSymbol h, Bool.false_eq_true, if_false]

theorem halting_symbol {s : String} (h : isSymbol s l = true)
    (hs : s = ")" ∨ s = ",") : Halting l where
  operator := by
    unfold binaryOperator?
    rw [token_of_isSymbol h]
    rcases hs with rfl | rfl <;> rfl
  collate := not_isWord_of_isSymbol h _
  trailing := trailing?_symbol h
  call := not_isSymbol_of_isSymbol h (by rcases hs with rfl | rfl <;> decide)
  column := not_isSymbol_of_isSymbol h (by rcases hs with rfl | rfl <;> decide)
  escape := not_isWord_of_isSymbol h _

theorem halting_word {w : String} (h : w ∈ ["where", "order", "limit", "offset", "desc"])
    (o : Nat) :
    Halting ⟨.word w, w, o⟩ := by
  simp only [List.mem_cons, List.not_mem_nil, or_false] at h
  rcases h with rfl | rfl | rfl | rfl | rfl
  · exact ⟨rfl, rfl, fun _ => rfl, rfl, rfl, rfl⟩
  · exact ⟨rfl, rfl, fun _ => rfl, rfl, rfl, rfl⟩
  · exact ⟨rfl, rfl, fun _ => rfl, rfl, rfl, rfl⟩
  · exact ⟨rfl, rfl, fun _ => rfl, rfl, rfl, rfl⟩
  · exact ⟨rfl, rfl, fun _ => rfl, rfl, rfl, rfl⟩

/-! ## Operators -/

theorem operators_nil : operators fuel power a [] = .ok (a, []) := by
  cases fuel <;> rfl

theorem operators_halt (h : Halts r) : operators fuel power a r = .ok (a, r) := by
  cases r with
  | nil => exact operators_nil
  | cons l r =>
    have hl := h l rfl
    cases fuel with
    | zero => rfl
    | succ fuel =>
      unfold operators
      simp only [hl.operator, hl.collate, hl.trailing, Bool.false_eq_true, if_false]

/-- An operator that binds less ends the operand before it. -/
theorem operators_low {op : Operator} {p : Nat} (hl : binaryOperator? l = some (op, p))
    (hp : p < power) : operators fuel power a (l :: r) = .ok (a, l :: r) := by
  cases fuel with
  | zero => rfl
  | succ fuel =>
    unfold operators
    simp only [hl, if_pos hp]

theorem operators_step {op : Operator} {p : Nat} (hl : binaryOperator? l = some (op, p))
    (hp : power ≤ p) (hb : scalar fuel (p + 1) r = .ok (b, r')) :
    operators (fuel + 1) power a (l :: r) = operators fuel power (.binary op a b) r' := by
  conv => lhs; unfold operators
  simp only [hl, if_neg (Nat.not_lt.mpr hp)]
  rw [bind_apply, hb, ok_bind]

theorem operators_trailing {form : Trailing} {taken : Nat} (ho : binaryOperator? l = none)
    (hc : isWord "collate" l = false) (ht : trailing? l r.head? = some (form, taken))
    (hp : power ≤ 4) (h : trailed fuel form a ((l :: r).drop taken) = .ok (b, r')) :
    operators (fuel + 1) power a (l :: r) = operators fuel power b r' := by
  conv => lhs; unfold operators
  simp only [ho, hc, ht, Bool.false_eq_true, if_false, if_neg (Nat.not_lt.mpr hp)]
  rw [bind_apply, h, ok_bind]

theorem scalar_step (h : operand fuel ls = .ok (a, r)) :
    scalar (fuel + 1) power ls = operators fuel power a r := by
  conv => lhs; unfold scalar
  rw [bind_apply, h, ok_bind]

theorem scalar_halt (h : operand fuel ls = .ok (a, r)) (hr : Halts r) :
    scalar (fuel + 1) power ls = .ok (a, r) := (scalar_step h).trans (operators_halt hr)

/-! ## Forms after an operand -/

theorem trailed_like (h : scalar fuel 5 r = .ok (b, r')) (hr : Halts r') (negated : Bool) :
    trailed (fuel + 1) (.like negated) a r = .ok (.like negated a b none, r') := by
  unfold trailed
  simp only
  rw [bind_apply, h, ok_bind, bind_apply]
  have hescape : takeWord "escape" r' = .ok (false, r') := by
    cases r' with
    | nil => exact takeWord_nil _
    | cons l r' => rw [takeWord_cons, (hr l rfl).escape]; rfl
  rw [hescape]
  rfl

theorem takeWord_of_not {w : String} (h : isWord w l = false) :
    takeWord w (l :: r) = .ok (false, l :: r) := by
  rw [takeWord_cons, h]
  rfl

theorem takeSymbol_of_not {w : String} (h : isSymbol w l = false) :
    takeSymbol w (l :: r) = .ok (false, l :: r) := by
  rw [takeSymbol_cons, h]
  rfl

theorem takeSymbol_of {w : String} (h : isSymbol w l = true) :
    takeSymbol w (l :: r) = .ok (true, r) := by
  rw [takeSymbol_cons, h]
  rfl

theorem trailed_is (hn : isWord "not" l = false) (hd : isWord "distinct" l = false)
    (h : scalar fuel 5 (l :: r) = .ok (b, r')) :
    trailed (fuel + 1) .is a (l :: r) = .ok (.binary .is a b, r') := by
  unfold trailed
  simp only
  rw [bind_apply, takeWord_of_not hn, ok_bind, bind_apply, takeWord_of_not hd, ok_bind]
  simp only [Bool.false_eq_true, if_false]
  rw [bind_apply, h]
  rfl

theorem trailed_isNot {n : Lexeme} (hn : isWord "not" n = true) (hd : isWord "distinct" l = false)
    (h : scalar fuel 5 (l :: r) = .ok (b, r')) :
    trailed (fuel + 1) .is a (n :: l :: r) = .ok (.binary .isNot a b, r') := by
  unfold trailed
  simp only
  rw [bind_apply, takeWord_cons, hn, ok_bind, bind_apply]
  simp only [if_true]
  rw [takeWord_of_not hd, ok_bind]
  simp only [Bool.false_eq_true, if_false]
  rw [bind_apply, h]
  rfl

theorem trailed_inside {opening closing : Lexeme} {items : List Scalar} (negated : Bool)
    (ho : isSymbol "(" opening = true) (hl : isSymbol ")" l = false)
    (hc : isSymbol ")" closing = true)
    (h : scalars fuel (l :: r) = .ok (items, closing :: r')) :
    trailed (fuel + 1) (.inside negated) a (opening :: l :: r) =
      .ok (.inList negated a items, r') := by
  unfold trailed
  simp only
  rw [bind_apply, takeSymbol_of ho, ok_bind]
  simp only [if_true]
  rw [bind_apply, takeSymbol_of_not hl, ok_bind]
  simp only [Bool.false_eq_true, if_false]
  rw [bind_apply, h, ok_bind, bind_apply, symbol_cons hc]
  rfl

theorem trailed_inside_nil {opening closing : Lexeme} (negated : Bool)
    (ho : isSymbol "(" opening = true) (hc : isSymbol ")" closing = true) :
    trailed (fuel + 1) (.inside negated) a (opening :: closing :: r) =
      .ok (.inList negated a [], r) := by
  unfold trailed
  simp only
  rw [bind_apply, takeSymbol_of ho, ok_bind]
  simp only [if_true]
  rw [bind_apply, takeSymbol_of hc, ok_bind]
  rfl

/-! ## Lists of scalars -/

theorem scalars_single (h : scalar fuel 0 ls = .ok (a, r)) (hr : Halts r)
    (hc : ∀ l, r.head? = some l → isSymbol "," l = false) :
    scalars (fuel + 1) ls = .ok ([a], r) := by
  unfold scalars
  rw [bind_apply, h, ok_bind]
  cases r with
  | nil => rfl
  | cons l r =>
    rw [bind_apply, takeSymbol_of_not (hc l rfl)]
    rfl

theorem scalars_closed {closing : Lexeme} (h : scalar fuel 0 ls = .ok (a, closing :: r))
    (hc : isSymbol ")" closing = true) : scalars (fuel + 1) ls = .ok ([a], closing :: r) := by
  refine scalars_single h (halts_cons (halting_symbol hc (Or.inl rfl))) ?_
  rintro l ⟨⟩
  exact not_isSymbol_of_isSymbol hc (by decide)

theorem scalars_cons {comma : Lexeme} {items : List Scalar}
    (h : scalar fuel 0 ls = .ok (a, comma :: r)) (hc : isSymbol "," comma = true)
    (hr : scalars fuel r = .ok (items, r')) : scalars (fuel + 1) ls = .ok (a :: items, r') := by
  conv => lhs; unfold scalars
  rw [bind_apply, h, ok_bind, bind_apply, takeSymbol_of hc, ok_bind]
  simp only [if_true]
  rw [bind_apply, hr]
  rfl

/-! ## Operands -/

theorem operand_parameter (spelling : String) (o : Nat) :
    operand (fuel + 1) (⟨.parameter "?", spelling, o⟩ :: r) = .ok (.parameter o, r) := rfl

theorem operand_string (text spelling : String) (o : Nat) :
    operand (fuel + 1) (⟨.string text, spelling, o⟩ :: r) = .ok (.literal (.text text), r) := rfl

theorem operand_name (text spelling : String) (o : Nat) (hr : Closes r) :
    operand (fuel + 1) (⟨.name text, spelling, o⟩ :: r) = .ok (.column none text true o, r) := by
  have hcast : isWord "cast" ⟨.name text, spelling, o⟩ = false := rfl
  have hcase : isWord "case" ⟨.name text, spelling, o⟩ = false := rfl
  have hname : nameOf? ⟨.name text, spelling, o⟩ = some text := rfl
  have hneg : negation? ⟨.name text, spelling, o⟩ = none := rfl
  have hlit : literal? ⟨.name text, spelling, o⟩ = none := rfl
  unfold operand
  rw [bind_apply, peek_cons, ok_bind]
  simp only [hneg, hlit, hcast, hcase, hname, Bool.false_eq_true, if_false]
  rw [bind_apply, next_cons, ok_bind]
  cases r with
  | nil => rfl
  | cons l r =>
    obtain ⟨hcall, hcolumn⟩ := hr l rfl
    rw [bind_apply, takeSymbol_of_not hcall, ok_bind]
    simp only [Bool.false_eq_true, if_false]
    rw [bind_apply, takeSymbol_of_not hcolumn]
    rfl

theorem operand_enclosed {opening closing : Lexeme} (ho : isSymbol "(" opening = true)
    (hc : isSymbol ")" closing = true) (h : scalars fuel ls = .ok ([a], closing :: r)) :
    operand (fuel + 1) (opening :: ls) = .ok (a, r) := by
  have ht := token_of_isSymbol ho
  have hneg : negation? opening = none := by
    unfold negation?
    rw [ht]
    rfl
  have hlit : literal? opening = none := by
    unfold literal?
    rw [ht]
  unfold operand
  rw [bind_apply, peek_cons, ok_bind]
  simp only [hneg, hlit, ht]
  rw [bind_apply, next_cons, ok_bind, bind_apply, h, ok_bind, bind_apply, symbol_cons hc]
  rfl

theorem arguments_nil {closing : Lexeme} (hc : isSymbol ")" closing = true) (function : String)
    (offset : Nat) : arguments (fuel + 1) function offset (closing :: r) =
      .ok (.call function false false [] offset, r) := by
  unfold arguments
  rw [bind_apply, takeSymbol_of_not (not_isSymbol_of_isSymbol hc (by decide)), ok_bind]
  simp only [Bool.false_eq_true, if_false]
  rw [bind_apply, takeSymbol_of hc]
  rfl

theorem arguments_cons {closing : Lexeme} {items : List Scalar} (function : String) (offset : Nat)
    (hs : isSymbol "*" l = false) (hl : isSymbol ")" l = false) (hd : isWord "distinct" l = false)
    (hc : isSymbol ")" closing = true)
    (h : scalars fuel (l :: r) = .ok (items, closing :: r')) :
    arguments (fuel + 1) function offset (l :: r) =
      .ok (.call function false false items offset, r') := by
  unfold arguments
  rw [bind_apply, takeSymbol_of_not hs, ok_bind]
  simp only [Bool.false_eq_true, if_false]
  rw [bind_apply, takeSymbol_of_not hl, ok_bind]
  simp only [Bool.false_eq_true, if_false]
  rw [bind_apply, takeWord_of_not hd, ok_bind, bind_apply, h, ok_bind, bind_apply, symbol_cons hc]
  rfl

theorem ne_of_reserved {x w : String} (h : reserved.contains x = false)
    (hw : reserved.contains w = true) : x ≠ w := by
  rintro rfl
  rw [h] at hw
  cases hw

theorem operand_call {text spelling : String} {o : Nat} {opening : Lexeme}
    (hr : reserved.contains (foldCase text) = false) (hcast : foldCase text ≠ "cast")
    (ho : isSymbol "(" opening = true) (h : arguments fuel text o ls = .ok (a, r)) :
    operand (fuel + 1) (⟨.word text, spelling, o⟩ :: opening :: ls) = .ok (a, r) := by
  have hneg : negation? ⟨.word text, spelling, o⟩ = none := if_neg (ne_of_reserved hr (by decide))
  have hlit : literal? ⟨.word text, spelling, o⟩ = none := if_neg (ne_of_reserved hr (by decide))
  have hcast : isWord "cast" ⟨.word text, spelling, o⟩ = false := beq_false_of_ne hcast
  have hcase : isWord "case" ⟨.word text, spelling, o⟩ = false :=
    beq_false_of_ne (ne_of_reserved hr (by decide))
  unfold operand
  rw [bind_apply, peek_cons, ok_bind]
  simp only [hneg, hlit, hcast, hcase, nameOf?_word hr, Bool.false_eq_true, if_false]
  rw [bind_apply, next_cons, ok_bind, bind_apply, takeSymbol_of ho, ok_bind]
  simp only [if_true]
  exact h

end Parser

end RecordMapper.Sql
