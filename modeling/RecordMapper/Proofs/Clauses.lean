import RecordMapper.Proofs.Binding
import RecordMapper.Proofs.Planning

/-!
# Reading the clauses of a query

The statement of a query is a head with a condition, an ordering and a window behind it, each of
which may be missing.

1. `Part`: a part of a statement is read from its text before any later part.
2. `Part.condition`, `Part.ordering`, `Part.window`: the three clauses.
3. `readsAs_windows`: the statement of a query, with any window.
-/

namespace RecordMapper.Sql

open Lexeme RecordMapper.Sql.Parser
open RecordMapper.Resolver (Agrees)

/-! ## Numbers -/

/-- A blank or nothing follows. -/
def Pause (rest : List Char) : Prop := Stops (fun c => c != ' ') rest

theorem pause_nil : Pause [] := by rintro _ ⟨⟩

instance : Following Pause := ⟨Stops.head, [], pause_nil⟩

theorem pause_space (rest : List Char) : Pause (' ' :: rest) := by
  rintro _ ⟨⟩
  rfl

theorem Pause.cases {rest : List Char} (h : Pause rest) : rest = [] ∨ ∃ r, rest = ' ' :: r := by
  cases rest with
  | nil => exact .inl rfl
  | cons c r =>
    have hc := h c rfl
    rw [bne_eq_false_iff_eq] at hc
    exact .inr ⟨r, by rw [hc]⟩

theorem Pause.ends {rest : List Char} (h : Pause rest) : Ends rest := by
  obtain rfl | ⟨r, rfl⟩ := h.cases
  · exact ends_nil
  · exact ends_cons rfl r

theorem Pause.append {as bs : List Char} (ha : Pause as) (hb : Pause bs) : Pause (as ++ bs) := by
  cases as with
  | nil => exact hb
  | cons c r => exact fun d hd => ha d hd

/-- A blank, a closing parenthesis or nothing follows. -/
def Breaks (rest : List Char) : Prop := Stops (fun c => c != ' ' && c != ')') rest

instance : Following Breaks := ⟨Stops.head, [], nofun⟩

theorem Pause.breaks {rest : List Char} (h : Pause rest) : Breaks rest := fun c hc =>
  Bool.and_eq_false_iff.mpr (.inl (h c hc))

theorem Breaks.cases {rest : List Char} (h : Breaks rest) :
    rest = [] ∨ (∃ r, rest = ' ' :: r) ∨ ∃ r, rest = ')' :: r := by
  cases rest with
  | nil => exact .inl rfl
  | cons c r =>
    have hc := h c rfl
    rw [Bool.and_eq_false_iff, bne_eq_false_iff_eq, bne_eq_false_iff_eq] at hc
    rcases hc with rfl | rfl
    · exact .inr (.inl ⟨r, rfl⟩)
    · exact .inr (.inr ⟨r, rfl⟩)

section Numbers

variable {rest : List Char} {o : Nat}

theorem Breaks.not_digit (h : Breaks rest) : Stops isDigit rest := by
  obtain rfl | ⟨r, rfl⟩ | ⟨r, rfl⟩ := h.cases
  · exact nofun
  · rintro _ ⟨⟩
    rfl
  · rintro _ ⟨⟩
    rfl

theorem sign_digit {c : Char} (h : isDigit c = true) (cs : List Char) :
    Numeral.sign (c :: cs) = (false, c :: cs) := by
  unfold Numeral.sign
  split
  · rename_i hc
    cases hc
    cases h
  · rename_i hc
    cases hc
    cases h
  · rfl

theorem read_digits (n : Nat) (h : Breaks rest) : Numeral.read (Nat.toDigits 10 n ++ rest) =
    some ({ negative := false, digits := n, exponent := 0, integral := true }, rest) := by
  obtain ⟨c, cs, hds⟩ := List.exists_cons_of_ne_nil Nat.toDigits_ne_nil
  have hdigit : ∀ d ∈ Nat.toDigits 10 n, isDigit d = true := fun d hd => isDigit_of_mem_toDigits hd
  have htake := takeWhile_of_stops hdigit h.not_digit
  have hdrop := dropWhile_of_stops hdigit h.not_digit
  have hvalue := digitsValue_toDigits n
  have hsign : Numeral.sign (Nat.toDigits 10 n ++ rest) = (false, Nat.toDigits 10 n ++ rest) := by
    rw [hds]
    exact sign_digit (hdigit c (by rw [hds]; exact List.mem_cons_self)) _
  have hempty : (Nat.toDigits 10 n).isEmpty = false := by rw [hds]; rfl
  unfold Numeral.read
  simp only [hsign, htake, hdrop]
  simp only [hempty, Bool.false_and, Bool.false_eq_true, if_false]
  -- What follows starts with no point and no exponent.
  have hend : some (Numeral.mk false (digitsValue (Nat.toDigits 10 n ++ [])) 0 true, rest) =
      some (Numeral.mk false n 0 true, rest) := by rw [List.append_nil, hvalue]
  obtain rfl | ⟨r, rfl⟩ | ⟨r, rfl⟩ := h.cases
  · exact hend
  · exact hend
  · exact hend

theorem numberToken_digits (n : Nat) (h : Breaks rest) : numberToken (Nat.toDigits 10 n ++ rest) =
    (.integer (toString n), rest) := by
  have hdecimal : numberToken.decimal (Nat.toDigits 10 n ++ rest) =
      (.integer (toString n), rest) := by
    unfold numberToken.decimal
    simp only [read_digits n h]
    have hstop : rest.head?.any continuesName = false := by
      obtain rfl | ⟨r, rfl⟩ | ⟨r, rfl⟩ := h.cases
      · rfl
      · rfl
      · rfl
    rw [hstop, List.length_append, Nat.add_sub_cancel, List.take_left]
    rfl
  unfold numberToken
  split
  · rename_i x r hcs
    have hx : (x == 'x' || x == 'X') = false := by
      have hx : isDigit x = true ∨ x = ' ' ∨ x = ')' := by
        obtain ⟨c, cs, hds⟩ := List.exists_cons_of_ne_nil Nat.toDigits_ne_nil
        rw [hds, List.cons_append] at hcs
        cases cs with
        | nil =>
          obtain rfl | ⟨r', rfl⟩ | ⟨r', rfl⟩ := h.cases
          · cases hcs
          · cases hcs
            exact .inr (.inl rfl)
          · cases hcs
            exact .inr (.inr rfl)
        | cons d cs =>
          cases hcs
          exact .inl (isDigit_of_mem_toDigits (n := n) (by rw [hds]; simp))
      rw [Bool.or_eq_false_iff, beq_eq_false_iff_ne, beq_eq_false_iff_ne]
      refine ⟨?_, ?_⟩
      · rintro rfl
        exact absurd hx (by decide)
      · rintro rfl
        exact absurd hx (by decide)
    simp only [hx, Bool.false_and, Bool.false_eq_true, if_false]
    exact hdecimal
  · exact hdecimal

theorem zeroless_toDigits (n : Nat) : Zeroless (Nat.toDigits 10 n) :=
  zeroless_of_forall (p := isDigit) (by decide) fun _ hd => isDigit_of_mem_toDigits hd

theorem Cut.number (n : Nat) :
    Cut Breaks o (toString n).toList [⟨.integer (toString n), toString n, o⟩] := by
  have hlist : (toString n).toList = Nat.toDigits 10 n := String.toList_ofList
  obtain ⟨c, cs, hds⟩ := List.exists_cons_of_ne_nil Nat.toDigits_ne_nil
  have hc : isDigit c = true :=
    isDigit_of_mem_toDigits (n := n) (by rw [hds]; exact List.mem_cons_self)
  have hne : ∀ d, isDigit d = false → c ≠ d := by
    rintro d hd rfl
    rw [hd] at hc
    cases hc
  rw [hlist]
  refine .single Nat.toDigits_ne_nil (fun rest hrest => ?_) ⟨rfl, rfl, nofun⟩
    (absurd (zeroless_toDigits n))
  have htoken := numberToken_digits n hrest
  rw [hds, List.cons_append] at htoken
  have hs : isSpace c = false := by
    simp only [isSpace, Bool.or_eq_false_iff, beq_eq_false_iff_ne]
    refine ⟨⟨⟨⟨hne _ (by decide), hne _ (by decide)⟩, hne _ (by decide)⟩, hne _ (by decide)⟩, ?_⟩
    exact fun h => hne (Char.ofNat 12) (by decide) (Char.toNat_inj.mp h)
  have ht : tokenAt c (cs ++ rest) = (.integer (toString n), rest) := by
    unfold tokenAt
    simp only [beq_false_of_ne (hne '\'' (by decide)), beq_false_of_ne (hne '"' (by decide)),
      beq_false_of_ne (hne '`' (by decide)), beq_false_of_ne (hne '[' (by decide)), hc, htoken,
      Bool.true_or, Bool.or_self, Bool.false_eq_true, if_true, if_false]
  have := Scans.token (o := o) hs (fun h => absurd h (hne _ (by decide)))
    (fun h => absurd h (hne _ (by decide))) ht
  rw [← hds] at this
  exact this

theorem Cut.number_pause (n : Nat) :
    Cut Pause o (toString n).toList [⟨.integer (toString n), toString n, o⟩] :=
  (Cut.number n).weaken fun _ hr => hr.breaks

theorem literal?_number (n : Nat) :
    literal? ⟨.integer (toString n), toString n, o⟩ = some (Cell.ofInt n) := by
  have hlist : (toString n).toList = Nat.toDigits 10 n := String.toList_ofList
  have hvalue := digitsValue_toDigits n
  unfold literal?
  simp only [hlist]
  split
  · rename_i hex hds
    exact absurd (isDigit_of_mem_toDigits (n := n) (c := 'x') (by rw [hds]; simp)) (by decide)
  · rw [hvalue]

end Numbers

/-! ## Scalars of a clause -/

section Scalars

variable {ls r : List Lexeme} {a : Scalar} {o : Nat}

theorem anyScalar_halt (ls : List Lexeme)
    (h : ∀ fuel, 8 * ls.length ≤ fuel → operand fuel (ls ++ r) = .ok (a, r)) (hr : Halts r) :
    anyScalar (ls ++ r) = .ok (a, r) := by
  show scalar (8 * ((ls ++ r).length + 1)) 0 (ls ++ r) = _
  rw [List.length_append, show 8 * (ls.length + r.length + 1) = 8 * (ls.length + r.length) + 7 + 1 by
    omega]
  exact scalar_halt (h _ (by omega)) hr

theorem operand_number (n fuel : Nat) : operand (fuel + 1)
    (⟨.integer (toString n), toString n, o⟩ :: r) = .ok (.literal (Cell.ofInt n), r) := by
  have hneg : negation? ⟨.integer (toString n), toString n, o⟩ = none := rfl
  unfold operand
  rw [bind_apply, peek_cons, ok_bind]
  simp only [hneg, literal?_number n]
  rfl

theorem anyScalar_number (n : Nat) (hr : Halts r) : anyScalar
    (⟨.integer (toString n), toString n, o⟩ :: r) = .ok (.literal (Cell.ofInt n), r) := by
  refine anyScalar_halt [⟨.integer (toString n), toString n, o⟩] (fun fuel hf => ?_) hr
  obtain ⟨fuel, rfl⟩ : ∃ k, fuel = k + 1 := ⟨fuel - 1, by rw [List.length_singleton] at hf; omega⟩
  exact operand_number n fuel

theorem anyScalar_minus (n o' : Nat) (hr : Halts r) : anyScalar
    (⟨.symbol "-", "-", o⟩ :: ⟨.integer (toString n), toString n, o'⟩ :: r) =
      .ok (.negate .minus (.literal (Cell.ofInt n)), r) := by
  refine anyScalar_halt [⟨.symbol "-", "-", o⟩, ⟨.integer (toString n), toString n, o'⟩]
    (fun fuel hf => ?_) hr
  obtain ⟨fuel, rfl⟩ : ∃ k, fuel = k + 3 := ⟨fuel - 3, by
    simp only [List.length_cons] at hf
    omega⟩
  have hneg : negation? ⟨.symbol "-", "-", o⟩ = some (.minus, 12) := rfl
  have hnumber : scalar (fuel + 2) 12 (⟨.integer (toString n), toString n, o'⟩ :: r) =
      .ok (.literal (Cell.ofInt n), r) := scalar_halt (operand_number n fuel) hr
  rw [List.cons_append, List.singleton_append]
  unfold operand
  rw [bind_apply, peek_cons, ok_bind]
  simp only [hneg]
  rw [bind_apply, next_cons, ok_bind, bind_apply, hnumber]
  rfl

theorem commaList_single {α : Type} {item : Parser α} {b : α} (h : item ls = .ok (b, r))
    (hr : ∀ l, r.head? = some l → isSymbol "," l = false) (fuel : Nat) :
    commaList item (fuel + 1) ls = .ok ([b], r) := by
  unfold commaList
  rw [bind_apply, h, ok_bind, bind_apply]
  cases r with
  | nil => rfl
  | cons l r =>
    rw [takeSymbol_of_not (hr l rfl)]
    rfl

theorem commaList_cons {α : Type} {item : Parser α} {b : α} {bs : List α} {comma : Lexeme}
    {r' : List Lexeme} (h : item ls = .ok (b, comma :: r))
    (hc : isSymbol "," comma = true) {fuel : Nat} (hs : commaList item fuel r = .ok (bs, r')) :
    commaList item (fuel + 1) ls = .ok (b :: bs, r') := by
  unfold commaList
  rw [bind_apply, h, ok_bind, bind_apply, takeSymbol_of hc, ok_bind]
  simp only [if_true]
  rw [bind_apply, hs]
  rfl

end Scalars

theorem Parser.of_bind_ok {α β : Type} {p : Parser α} {f : α → Parser β} {ls : List Lexeme}
    {x : β × List Lexeme} (h : (p >>= f) ls = .ok x) :
    ∃ a r, p ls = .ok (a, r) ∧ f a r = .ok x := by
  rw [bind_apply] at h
  cases hp : p ls with
  | error e => rw [hp] at h; cases h
  | ok y =>
    rw [hp, ok_bind] at h
    exact ⟨y.1, y.2, rfl, h⟩

/-! ## Parts of a statement -/

/-- Lexemes that are at their end or go on with one of some words. -/
def Before (words : List String) (r : List Lexeme) : Prop :=
  ∀ l, r.head? = some l → ∃ w ∈ words, ∃ o, l = ⟨.word w, w, o⟩

theorem before_nil (words : List String) : Before words [] := nofun

theorem before_cons {words : List String} {w : String} (h : w ∈ words) (o : Nat) (r : List Lexeme) :
    Before words (⟨.word w, w, o⟩ :: r) := by
  rintro l ⟨⟩
  exact ⟨w, h, o, rfl⟩

theorem Before.mono {words words' : List String} {r : List Lexeme} (h : Before words r)
    (hw : ∀ w ∈ words, w ∈ words') : Before words' r := fun l hl => by
  obtain ⟨w, hmem, o, rfl⟩ := h l hl
  exact ⟨w, hw w hmem, o, rfl⟩

theorem Before.halts {words : List String} {r : List Lexeme} (h : Before words r)
    (hw : ∀ w ∈ words, w ∈ ["where", "order", "limit", "offset", "desc"]) : Halts r := by
  intro l hl
  obtain ⟨w, hmem, o, rfl⟩ := h l hl
  exact halting_word (hw w hmem) o

/-- A part of a statement is read from its text and what the parameters in it are bound to. The
words before which it may stand are `after`; it is empty or starts with one of `before`. -/
def Part {α : Type} (p : Parser α) (text : String) (own : List Cell) (before after : List String)
    (good : Parameters → List Cell → α → Prop) : Prop :=
  Pause text.toList ∧ ∀ o, ∃ ls a, Cut Pause o text.toList ls ∧ (marks ls).length = own.length ∧
    (∀ r, Before after r → Before before (ls ++ r) ∧ p (ls ++ r) = .ok (a, r)) ∧
    ∀ ps cells, Bound ps cells (marks ls) own → good ps cells a

namespace Part

variable {α β : Type} {p : Parser α} {q : α → Parser β} {text text' : String} {own own' : List Cell}
  {before middle after : List String} {g : Parameters → List Cell → α → Prop}
  {g' : α → Parameters → List Cell → β → Prop}

theorem andThen (hp : Part p text own before middle g)
    (hq : ∀ a, Part (q a) text' own' middle after (g' a)) :
    Part (p >>= q) (text ++ text') (own ++ own') before after
      fun ps cells b => ∃ a, g ps cells a ∧ g' a ps cells b := by
  refine ⟨?_, fun o => ?_⟩
  · rw [String.toList_append]
    obtain ⟨_, a, -⟩ := hp.2 0
    exact hp.1.append (hq a).1
  · obtain ⟨la, a, hcut, hmarks, hread, hgood⟩ := hp.2 o
    obtain ⟨hpause, hq⟩ := hq a
    obtain ⟨lb, b, hcut', hmarks', hread', hgood'⟩ := hq (o + Bytes.lengthOf text.toList)
    refine ⟨la ++ lb, b, ?_, ?_, fun r hr => ?_, fun ps cells hb => ?_⟩
    · rw [String.toList_append]
      exact hcut.append hcut' fun rest hrest => hpause.append hrest
    · rw [marks_append, List.length_append, List.length_append, hmarks, hmarks']
    · obtain ⟨hbefore, hq⟩ := hread' r hr
      obtain ⟨hbefore', hp⟩ := hread _ hbefore
      rw [List.append_assoc]
      exact ⟨hbefore', by rw [bind_apply, hp, ok_bind, hq]⟩
    · rw [marks_append] at hb
      obtain ⟨h₁, h₂⟩ := hb.append hmarks
      exact ⟨a, hgood ps cells h₁, hgood' ps cells h₂⟩

theorem empty {a : α} (hw : ∀ w ∈ after, w ∈ before)
    (h : ∀ r, Before after r → p r = .ok (a, r)) :
    Part p "" [] before after fun _ _ b => b = a :=
  ⟨nofun, fun _ => ⟨[], a, Cut.nil.weaken fun _ _ => trivial, rfl,
    fun r hr => ⟨hr.mono hw, h r hr⟩, fun _ _ _ => rfl⟩⟩

theorem imp {good' : Parameters → List Cell → α → Prop} (hp : Part p text own before after g)
    (h : ∀ ps cells a, g ps cells a → good' ps cells a) : Part p text own before after good' :=
  ⟨hp.1, fun o => by
    obtain ⟨ls, a, hcut, hmarks, hread, hgood⟩ := hp.2 o
    exact ⟨ls, a, hcut, hmarks, hread, fun ps cells hb => h ps cells a (hgood ps cells hb)⟩⟩

end Part

/-! ## Clauses -/

section Clause

variable {α : Type} {w : String} {p : Parser α} {r : List Lexeme}

theorem clause_cons {a : α} {r' : List Lexeme} {o : Nat} {spelling : String} (hw : foldCase w = w)
    (h : p r = .ok (a, r')) : clause w p (⟨.word w, spelling, o⟩ :: r) = .ok (some a, r') := by
  have hword : isWord w ⟨.word w, spelling, o⟩ = true := by
    rw [isWord_word, hw]
    exact beq_self_eq_true w
  unfold clause
  rw [bind_apply, takeWord_cons, if_pos hword, ok_bind]
  simp only [if_true]
  rw [bind_apply, h]
  rfl

theorem clause_none {words : List String} (hr : Before words r) (hw : ∀ x ∈ words, foldCase x ≠ w) :
    clause w p r = .ok (none, r) := by
  unfold clause
  cases r with
  | nil => rfl
  | cons l r =>
    obtain ⟨x, hx, o, rfl⟩ := hr l rfl
    have hword : isWord w ⟨.word x, x, o⟩ = false := beq_false_of_ne (hw x hx)
    rw [bind_apply, takeWord_cons, hword]
    rfl

end Clause

namespace Part

/-! ### Conditions -/

variable {t t' : Table} {text : String} {own : List Cell} {b : Scalar}

theorem no_condition : Part (clause "where" anyScalar) "" [] ["where", "order", "limit"]
    ["order", "limit"] fun _ _ a => a = none :=
  .empty (by decide) fun _ hr => clause_none hr (by decide)

theorem condition_filled (h : Phrase text own b) :
    Part (clause "where" anyScalar) (" where " ++ text)
    own ["where", "order", "limit"] ["order", "limit"]
    fun ps cells a => ∃ x, a = some x ∧ Filled ps cells x b := by
  refine ⟨?_, fun o => ?_⟩
  · rw [String.toList_append]
    exact pause_space _
  · obtain ⟨ls, a, hlex, hread, hmeans⟩ := h.reads (o + Bytes.lengthOf " where ".toList)
    have hword : Cut Anything o " where ".toList [⟨.word "where", "where", o + 1⟩] :=
      .spaced (s := "where") fun _ => .word_blank (by decide)
    have hcut : Cut Pause o (" where " ++ text).toList ([⟨.word "where", "where", o + 1⟩] ++ ls) := by
      rw [String.toList_append]
      exact hword.andThen (hlex.cut.weaken fun _ hr => Pause.ends hr)
    refine ⟨_, some a, hcut, hlex.marks, fun r hr => ⟨before_cons (w := "where") (by decide) _ _, ?_⟩,
      fun ps cells hb => ⟨a, rfl, hmeans ps cells hb⟩⟩
    have hhalts : Halts r := hr.halts (by decide)
    exact clause_cons (by decide) (anyScalar_halt _ (fun fuel hf => hread fuel r hf hhalts.closes) hhalts)

theorem condition (ht : t.SameColumns t') (h : Phrase text own b) :
    Part (clause "where" anyScalar) (" where " ++ text)
    own ["where", "order", "limit"] ["order", "limit"]
    fun ps cells a => ∃ x, a = some x ∧ Agrees t t' ps cells x b :=
  (condition_filled h).imp fun _ _ _ ⟨x, hx, hfilled⟩ => ⟨x, hx, hfilled.agrees ht⟩

/-! ### Orderings -/

def termLexemes (k : SortTerm) (o : Nat) : List Lexeme :=
  ⟨.name k.column, quoteIdentifier k.column, o⟩ ::
    if k.ascending then []
    else [⟨.word "desc", "desc", o + Bytes.lengthOf (quoteIdentifier k.column).toList + 1⟩]

/-- What may follow a term. -/
def Comma (rest : List Char) : Prop := Stops (fun c => c != ' ' && c != ',') rest

instance : Following Comma := ⟨Stops.head, [], nofun⟩

theorem cut_term (k : SortTerm) (o : Nat) : Cut Comma o k.text.toList (termLexemes k o) := by
  have hends : ∀ rest, Comma rest → Ends rest := fun rest h c hc => by
    have := h c hc
    rw [Bool.and_eq_false_iff, bne_eq_false_iff_eq, bne_eq_false_iff_eq] at this
    rcases this with rfl | rfl <;> rfl
  unfold SortTerm.text termLexemes
  cases k.ascending with
  | true =>
    rw [if_pos rfl, if_pos rfl, String.append_empty]
    exact (Cut.quoted k.column).weaken hends
  | false =>
    rw [if_neg Bool.false_ne_true, if_neg Bool.false_ne_true, String.toList_append]
    have hword := Cut.word (o := o + Bytes.lengthOf (quoteIdentifier k.column).toList + 1) (w := "desc")
      (by decide)
    have hdesc : Cut Comma (o + Bytes.lengthOf (quoteIdentifier k.column).toList)
        (" ".toList ++ "desc".toList)
        ([] ++ [⟨.word "desc", "desc", o + Bytes.lengthOf (quoteIdentifier k.column).toList + 1⟩]) := by
      refine Cut.space.andThen (hword.weaken fun rest hrest => ⟨fun c hc => ?_, fun h => ?_⟩)
      · have := hrest c hc
        rw [Bool.and_eq_false_iff, bne_eq_false_iff_eq, bne_eq_false_iff_eq] at this
        rcases this with rfl | rfl <;> rfl
      · exact absurd (hrest _ h) (by decide)
    exact (Cut.quoted k.column).append hdesc fun rest _ => ends_cons rfl _

theorem orderTerm_term (k : SortTerm) (o : Nat) {r : List Lexeme} (hr : Halts r)
    (hw : ∀ l, r.head? = some l → isWord "desc" l = false ∧ isWord "asc" l = false) :
    orderTerm (termLexemes k o ++ r) =
      .ok (⟨.column none k.column true o, !k.ascending⟩, r) := by
  have hname : ∀ r', Halts r' → anyScalar (⟨.name k.column, quoteIdentifier k.column, o⟩ :: r') =
      .ok (.column none k.column true o, r') := fun r' hr' =>
    anyScalar_halt [⟨.name k.column, quoteIdentifier k.column, o⟩] (fun fuel hf => by
      obtain ⟨fuel, rfl⟩ : ∃ n, fuel = n + 1 := ⟨fuel - 1, by
        rw [List.length_singleton] at hf
        omega⟩
      exact operand_name k.column _ o hr'.closes) hr'
  unfold orderTerm termLexemes
  cases k.ascending with
  | true =>
    rw [if_pos rfl, List.cons_append, List.nil_append, bind_apply, hname r hr, ok_bind]
    cases r with
    | nil => rfl
    | cons l r =>
      obtain ⟨hdesc, hasc⟩ := hw l rfl
      rw [bind_apply, takeWord_of_not hdesc, ok_bind]
      simp only [Bool.false_eq_true, if_false]
      rw [bind_apply, takeWord_of_not hasc]
      rfl
  | false =>
    have hhalts := halts_cons (r := r) (halting_word (w := "desc") (by decide)
      (o + Bytes.lengthOf (quoteIdentifier k.column).toList + 1))
    rw [if_neg Bool.false_ne_true, List.cons_append, List.cons_append, List.nil_append, bind_apply,
      hname _ hhalts, ok_bind, bind_apply, takeWord_cons]
    rfl

def orderLexemes (k : SortTerm) : List SortTerm → Nat → List Lexeme
  | [], o => termLexemes k o
  | k' :: ks, o =>
    let place := o + Bytes.lengthOf k.text.toList
    termLexemes k o ++ (⟨.symbol ",", ",", place⟩ :: orderLexemes k' ks (place + 2))

theorem cut_order (k : SortTerm) (ks : List SortTerm) (o : Nat) :
    Cut Pause o (", ".intercalate ((k :: ks).map SortTerm.text)).toList (orderLexemes k ks o) := by
  have hcomma : ∀ rest, Pause rest → Comma rest := fun rest h c hc => by
    have hspace : (c != ' ') = false := h c hc
    show (c != ' ' && c != ',') = false
    rw [hspace]
    rfl
  induction ks generalizing k o with
  | nil =>
    rw [List.map_singleton, String.intercalate_singleton]
    exact (cut_term k o).weaken hcomma
  | cons k' ks ih =>
    rw [List.map_cons, List.map_cons, String.intercalate_cons_cons, String.append_assoc,
      String.toList_append, String.toList_append]
    have hsep : Cut Anything (o + Bytes.lengthOf k.text.toList) ", ".toList
        ([⟨.symbol ",", ",", o + Bytes.lengthOf k.text.toList⟩] ++ []) :=
      (Cut.symbol (s := ",") (by decide)).andThen .space
    exact (cut_term k o).append (hsep.andThen (ih k' _)) fun rest _ => by
      rintro _ ⟨⟩
      rfl

theorem marks_term (k : SortTerm) (o : Nat) : marks (termLexemes k o) = [] := by
  unfold termLexemes
  cases k.ascending <;> rfl

theorem marks_order (k : SortTerm) (ks : List SortTerm) (o : Nat) :
    marks (orderLexemes k ks o) = [] := by
  induction ks generalizing k o with
  | nil => exact marks_term k o
  | cons k' ks ih =>
    show marks (termLexemes k o ++ ([_] ++ orderLexemes k' ks _)) = []
    rw [marks_append, marks_append, marks_term, ih]
    rfl

theorem commaList_order (k : SortTerm) (ks : List SortTerm) (o : Nat) :
    ∃ terms, List.Forall₂ SelectPlan.Orders terms (k :: ks) ∧ ∀ r, Before ["limit"] r → ∀ fuel,
      commaList orderTerm (fuel + ks.length + 1) (orderLexemes k ks o ++ r) = .ok (terms, r) := by
  induction ks generalizing k o with
  | nil =>
    refine ⟨[⟨.column none k.column true o, !k.ascending⟩], .cons ⟨o, rfl⟩ .nil, fun r hr fuel =>
      commaList_single (orderTerm_term k o (hr.halts (by decide)) fun l hl => ?_) (fun l hl => ?_) _⟩
    · obtain ⟨w, hw, o', rfl⟩ := hr l hl
      cases List.mem_singleton.mp hw
      exact ⟨rfl, rfl⟩
    · obtain ⟨w, hw, o', rfl⟩ := hr l hl
      rfl
  | cons k' ks ih =>
    have hsymbol : isSymbol "," ⟨.symbol ",", ",", o + Bytes.lengthOf k.text.toList⟩ = true := rfl
    obtain ⟨terms, hterms, hread⟩ := ih k' (o + Bytes.lengthOf k.text.toList + 2)
    refine ⟨⟨.column none k.column true o, !k.ascending⟩ :: terms, .cons ⟨o, rfl⟩ hterms,
      fun r hr fuel => ?_⟩
    show commaList orderTerm _ ((termLexemes k o ++ (_ :: orderLexemes k' ks _)) ++ r) = _
    rw [List.append_assoc]
    refine commaList_cons (orderTerm_term k o (halts_cons (halting_symbol hsymbol (Or.inr rfl)))
      fun l hl => ?_) hsymbol (hread r hr fuel)
    cases hl
    exact ⟨rfl, rfl⟩

theorem length_order (k : SortTerm) (ks : List SortTerm) (o : Nat) :
    ks.length < (orderLexemes k ks o).length := by
  induction ks generalizing k o with
  | nil => exact Nat.succ_pos _
  | cons k' ks ih =>
    have := ih k' (o + Bytes.lengthOf k.text.toList + 2)
    unfold orderLexemes
    simp only [List.length_append, List.length_cons]
    omega

def orderClause : Parser (Option (List OrderTerm)) :=
  clause "order" (do word "by"; withFuel (commaList orderTerm))

theorem ordering (q : QueryState) : Part orderClause q.orderText [] ["order", "limit"] ["limit"]
    fun _ _ terms => List.Forall₂ SelectPlan.Orders (terms.getD []) (q.orderings.getD []) := by
  have hnone : Part orderClause "" [] ["order", "limit"] ["limit"] fun _ _ a => a = none :=
    .empty (by decide) fun _ hr => clause_none hr (by decide)
  unfold QueryState.orderText
  split
  · rename_i k ks ho
    refine ⟨?_, fun o => ?_⟩
    · rw [String.toList_append]
      exact pause_space _
    · have hwords : Cut Anything o " order by ".toList
          ([⟨.word "order", "order", o + 1⟩] ++ [⟨.word "by", "by", o + 7⟩]) := by
        have horder : Cut Cut.Blank o (" ".toList ++ "order".toList)
            ([] ++ [⟨.word "order", "order", o + 1⟩]) :=
          Cut.space.andThen (.word_blank (by decide))
        have hby : Cut Anything (o + 6) (" " ++ "by" ++ " ").toList
            [⟨.word "by", "by", o + 6 + 1⟩] :=
          .spaced fun _ => .word_blank (by decide)
        exact horder.append hby fun rest _ => ⟨_, rfl⟩
      have hcut := hwords.andThen (cut_order k ks (o + Bytes.lengthOf " order by ".toList))
      obtain ⟨terms, hterms, hread⟩ := commaList_order k ks (o + Bytes.lengthOf " order by ".toList)
      refine ⟨_, some terms, by rw [String.toList_append]; exact hcut, ?_, fun r hr => ⟨?_, ?_⟩,
        fun _ _ _ => ?_⟩
      · rw [marks_append, marks_order]
        rfl
      · exact before_cons (w := "order") (by decide) _ _
      · have hlen := length_order k ks (o + Bytes.lengthOf " order by ".toList)
        refine clause_cons (r := ⟨.word "by", "by", o + 7⟩ ::
          (orderLexemes k ks (o + Bytes.lengthOf " order by ".toList) ++ r)) (by decide) ?_
        rw [bind_apply, word_cons rfl, ok_bind]
        have hread := hread r hr ((orderLexemes k ks (o + Bytes.lengthOf " order by ".toList)).length +
          r.length - ks.length)
        show commaList orderTerm _ _ = _
        rw [List.length_append]
        convert hread using 2
        omega
      · rw [ho]
        exact hterms
  · rename_i hno
    refine hnone.imp fun _ _ a ha => ?_
    subst ha
    cases ho : q.orderings with
    | none => exact .nil
    | some ks =>
      cases ks with
      | nil => exact .nil
      | cons k ks => exact absurd ho (hno k ks)

/-! ### Windows -/

/-- The limit and the offset of a query. -/
def windowClause : Parser (Option Scalar × Option Scalar) := do
  let limit ← clause "limit" anyScalar
  match limit with
  | none => pure (none, none)
  | some first =>
    if ← takeWord "offset" then (do return (some first, some (← anyScalar)))
    else if ← takeSymbol "," then (do return (some (← anyScalar), some first))
    else pure (some first, none)

def numberScalar (n : Nat) : Scalar := .literal (Cell.ofInt n)

/-- The scalars of a window; an offset alone has a limit that is none. -/
def windowScalars : Option Nat → Option Nat → Option Scalar × Option Scalar
  | some limit, offset => (some (numberScalar limit), offset.map numberScalar)
  | none, some offset => (some (.negate .minus (numberScalar 1)), some (numberScalar offset))
  | none, none => (none, none)

theorem windowClause_limit {a : Scalar} {ls r : List Lexeme} {o : Nat} (hr : Before [] r)
    (h : anyScalar (ls ++ r) = .ok (a, r)) :
    windowClause (⟨.word "limit", "limit", o⟩ :: (ls ++ r)) = .ok ((some a, none), r) := by
  have hnil : r = [] := by
    cases r with
    | nil => rfl
    | cons l r =>
      obtain ⟨w, hw, -⟩ := hr l rfl
      cases hw
  subst hnil
  unfold windowClause
  rw [bind_apply, clause_cons (by decide) h]
  rfl

theorem windowClause_offset {a b : Scalar} {ls r : List Lexeme} {o o' : Nat}
    (h : ∀ r, Halts r → anyScalar (ls ++ r) = .ok (a, r)) {l : Lexeme}
    (hb : anyScalar (l :: r) = .ok (b, r)) :
    windowClause (⟨.word "limit", "limit", o⟩ :: (ls ++ ⟨.word "offset", "offset", o'⟩ :: l :: r)) =
      .ok ((some a, some b), r) := by
  unfold windowClause
  rw [bind_apply, clause_cons (by decide)
    (h _ (halts_cons (halting_word (w := "offset") (by decide) o'))), ok_bind]
  show (takeWord "offset" >>= _) _ = _
  rw [bind_apply, takeWord_cons]
  show (anyScalar >>= _) (l :: r) = _
  rw [bind_apply, hb]
  rfl

theorem cut_limit {text : String} {ls : List Lexeme} {o : Nat}
    (h : Cut Pause (o + Bytes.lengthOf " limit ".toList) text.toList ls) :
    Cut Pause o (" limit " ++ text).toList (⟨.word "limit", "limit", o + 1⟩ :: ls) := by
  have hword : Cut Anything o " limit ".toList [⟨.word "limit", "limit", o + 1⟩] :=
    .spaced (s := "limit") fun _ => .word_blank (by decide)
  rw [String.toList_append]
  exact hword.andThen h

theorem cut_offset {text : String} {ls : List Lexeme} {o : Nat}
    (h : Cut Pause o text.toList ls) (n : Nat) :
    Cut Pause o (text ++ " offset " ++ toString n).toList
      (ls ++ (⟨.word "offset", "offset", o + Bytes.lengthOf text.toList + 1⟩ ::
        [⟨.integer (toString n), toString n, o + Bytes.lengthOf text.toList +
          Bytes.lengthOf " offset ".toList⟩])) := by
  have hword : Cut Anything (o + Bytes.lengthOf text.toList) " offset ".toList
      [⟨.word "offset", "offset", o + Bytes.lengthOf text.toList + 1⟩] :=
    .spaced (s := "offset") fun _ => .word_blank (by decide)
  rw [String.append_assoc, String.toList_append, String.toList_append]
  exact h.append (hword.andThen (.number_pause n)) fun rest _ => pause_space _

theorem cut_minus_one (o : Nat) : Cut Pause o "-1".toList
    [⟨.symbol "-", "-", o⟩, ⟨.integer "1", "1", o + 1⟩] := by
  have hsign : Cut (Begins '1') o "-".toList [⟨.symbol "-", "-", o⟩] := by
    refine .single (by decide) (fun rest hrest => ?_) ⟨rfl, rfl, nofun⟩ (absurd (by decide))
    obtain ⟨r, rfl⟩ := hrest
    exact Scans.token (c := '-') (by decide) (fun _ h => absurd (Option.some.inj h) (by decide))
      (fun h => absurd h (by decide)) rfl
  exact hsign.append (.number_pause 1) fun rest _ => ⟨rest, rfl⟩

theorem window (q : QueryState) : Part windowClause q.windowText [] ["limit"] []
    fun _ _ w => w = windowScalars q.limit q.offset := by
  have hnumber : ∀ (n o : Nat) (r : List Lexeme), Halts r →
      anyScalar ([⟨.integer (toString n), toString n, o⟩] ++ r) = .ok (numberScalar n, r) :=
    fun n o r hr => anyScalar_number n hr
  have hminus : ∀ (o o' : Nat) (r : List Lexeme), Halts r →
      anyScalar ([⟨.symbol "-", "-", o⟩, ⟨.integer "1", "1", o'⟩] ++ r) =
        .ok (.negate .minus (numberScalar 1), r) := fun o o' r hr => anyScalar_minus 1 o' hr
  have hpause : ∀ text : String, Pause (" limit " ++ text).toList := fun text => by
    rw [String.toList_append]
    exact pause_space _
  unfold QueryState.windowText
  rcases q.limit with _ | limit <;> rcases q.offset with _ | offset <;> dsimp only
  · refine .empty (by decide) fun r hr => ?_
    unfold windowClause
    rw [bind_apply, clause_none hr (by decide)]
    rfl
  · rw [show " limit -1 offset " = " limit " ++ "-1" ++ " offset " from rfl]
    refine ⟨by rw [String.append_assoc, String.append_assoc]; exact hpause _, fun o =>
      ⟨_, _, cut_offset (cut_limit (cut_minus_one _)) offset, rfl, fun r hr =>
        ⟨before_cons (w := "limit") (by decide) _ _, windowClause_offset (hminus _ _)
          (anyScalar_number offset (hr.halts (by decide)))⟩, fun _ _ _ => rfl⟩⟩
  · exact ⟨hpause _, fun o => ⟨_, _, cut_limit (.number_pause limit), rfl, fun r hr =>
      ⟨before_cons (w := "limit") (by decide) _ _, windowClause_limit hr
        (hnumber limit _ r (hr.halts (by decide)))⟩, fun _ _ _ => rfl⟩⟩
  · refine ⟨by rw [String.append_assoc, String.append_assoc]; exact hpause _, fun o =>
      ⟨_, _, cut_offset (cut_limit (.number_pause limit)) offset, rfl, fun r hr =>
        ⟨before_cons (w := "limit") (by decide) _ _, windowClause_offset (hnumber limit _)
          (anyScalar_number offset (hr.halts (by decide)))⟩, fun _ _ _ => rfl⟩⟩

/-! ### All clauses -/

/-- The condition, the ordering and the window of a query. -/
def clauses : Parser (Option Scalar × Option (List OrderTerm) × Option Scalar × Option Scalar) := do
  let condition ← clause "where" anyScalar
  let orderings ← orderClause
  let window ← windowClause
  return (condition, orderings, window)

/-- The condition and the ordering of a query. -/
def front : Parser (Option Scalar × Option (List OrderTerm)) := do
  let condition ← clause "where" anyScalar
  let orderings ← orderClause
  return (condition, orderings)

theorem front_part {good : Parameters → List Cell → Option Scalar → Prop} (q : QueryState)
    (h : Part (clause "where" anyScalar) text own ["where", "order", "limit"] ["order", "limit"] good) :
    Part front (text ++ q.orderText) own ["where", "order", "limit"] ["limit"]
      fun ps cells x => good ps cells x.1 ∧
        List.Forall₂ SelectPlan.Orders (x.2.getD []) (q.orderings.getD []) := by
  have hlast : ∀ condition : Option Scalar,
      Part (do let orderings ← orderClause; return (condition, orderings)) q.orderText []
        ["order", "limit"] ["limit"] fun _ _ x => x.1 = condition ∧
          List.Forall₂ SelectPlan.Orders (x.2.getD []) (q.orderings.getD []) := by
    intro condition
    have hpure : ∀ orderings : Option (List OrderTerm), Part (pure (condition, orderings)) "" []
        ["limit"] ["limit"] fun _ _ x => x = (condition, orderings) := fun orderings =>
      .empty (fun _ hw => hw) fun r _ => rfl
    have := (ordering q).andThen hpure
    rw [String.append_empty] at this
    refine this.imp fun _ _ x ⟨orderings, hterms, hx⟩ => ?_
    subst hx
    exact ⟨rfl, hterms⟩
  have := h.andThen hlast
  rw [List.append_nil] at this
  refine this.imp fun ps cells x ⟨condition, hgood, hx, hterms⟩ => ?_
  subst hx
  exact ⟨hgood, hterms⟩

theorem clauses_window {x : Option Scalar × Option (List OrderTerm)} {la lb : List Lexeme}
    {w : Option Scalar × Option Scalar} (hfront : front (la ++ lb) = .ok (x, lb))
    (hwindow : windowClause lb = .ok (w, [])) : clauses (la ++ lb) = .ok ((x.1, x.2, w), []) := by
  obtain ⟨condition, r₁, hcondition, h⟩ := of_bind_ok hfront
  obtain ⟨orderings, r₂, horderings, h⟩ := of_bind_ok h
  cases h
  unfold clauses
  rw [bind_apply, hcondition, ok_bind, bind_apply, horderings, ok_bind, bind_apply,
    hwindow, ok_bind]
  rfl

end Part

/-! ## Whole statements -/

/-- A text that is read as one item of a result list. -/
structure Chosen (text item : String) (ls : List Lexeme) (s : Selection) : Prop where
  cut : Cut Cut.Blank 7 item.toList ls
  marks : marks ls = []
  starts : ∃ l r, ls = l :: r ∧ isWord "distinct" l = false ∧ isWord "all" l = false
  reads : ∀ o r, selection text (ls ++ ⟨.word "from", "from", o⟩ :: r) =
    .ok (s, ⟨.word "from", "from", o⟩ :: r)

theorem Chosen.star (text : String) : Chosen text "*" [⟨.symbol "*", "*", 7⟩] (.all none) where
  cut := (Cut.symbol (by decide)).weaken fun _ _ => trivial
  marks := rfl
  starts := ⟨_, _, rfl, rfl, rfl⟩
  reads o r := by
    cases r with
    | nil => rfl
    | cons a r => rfl

theorem source_name {table : String} {o : Nat} {rest : List Lexeme}
    (hrest : Before ["where", "order", "limit"] rest) :
    source (⟨.name table, quoteIdentifier table, o⟩ :: rest) = .ok (⟨table, none⟩, rest) := by
  have halias : aliasName rest = .ok (none, rest) := by
    unfold aliasName
    cases rest with
    | nil => rfl
    | cons l r =>
      obtain ⟨w, hw, o, rfl⟩ := hrest l rfl
      simp only [List.mem_cons, List.not_mem_nil, or_false] at hw
      rcases hw with rfl | rfl | rfl
      · rfl
      · rfl
      · rfl
  unfold source
  rw [bind_apply, name_of_nameOf? (l := ⟨.name table, quoteIdentifier table, o⟩) rfl
    (fun _ h => Token.noConfusion h), ok_bind, bind_apply, halias]
  rfl

theorem select_chosen (table : String) (o o' : Nat) {text item : String} {ls rest : List Lexeme}
    {s : Selection}
    (hs : Chosen text item ls s) {condition : Option Scalar} {orderings : Option (List OrderTerm)}
    {limit offset : Option Scalar} (hrest : Before ["where", "order", "limit"] rest)
    (h : Part.clauses rest = .ok ((condition, orderings, limit, offset), [])) :
    select text (ls ++ ⟨.word "from", "from", o⟩ :: ⟨.name table, quoteIdentifier table, o'⟩ :: rest) =
      .ok ({ selections := [s], source := some ⟨table, none⟩, condition,
             orderings := orderings.getD [], limit, offset }, []) := by
  have hselections : withFuel (commaList (selection text)) (ls ++ ⟨.word "from", "from", o⟩ ::
      ⟨.name table, quoteIdentifier table, o'⟩ :: rest) =
        .ok ([s], ⟨.word "from", "from", o⟩ :: ⟨.name table, quoteIdentifier table, o'⟩ :: rest) := by
    refine commaList_single (hs.reads _ _) (fun l hl => ?_) _
    cases hl
    rfl
  have hfrom : clause "from" source
      (⟨.word "from", "from", o⟩ :: ⟨.name table, quoteIdentifier table, o'⟩ :: rest) =
        .ok (some ⟨table, none⟩, rest) := clause_cons (by decide) (source_name hrest)
  obtain ⟨_, r₁, hwhere, h⟩ := of_bind_ok h
  obtain ⟨_, r₂, horder, h⟩ := of_bind_ok h
  obtain ⟨_, r₃, hwindow, h⟩ := of_bind_ok h
  cases h
  obtain ⟨first, r₄, hlimit, hoffset⟩ := of_bind_ok hwindow
  obtain ⟨l, r₀, rfl, hdistinct, hall⟩ := hs.starts
  unfold select
  rw [List.cons_append, bind_apply, takeWord_of_not hdistinct, ok_bind, bind_apply,
    takeWord_of_not hall, ok_bind, ← List.cons_append, bind_apply, hselections, ok_bind, bind_apply,
    hfrom, ok_bind, bind_apply, hwhere, ok_bind, bind_apply]
  refine (congrArg (Except.bind · _) (horder : Part.orderClause r₁ = _)).trans ?_
  rw [ok_bind, bind_apply, hlimit, ok_bind]
  cases first with
  | none =>
    cases hoffset
    rfl
  | some first =>
    obtain ⟨taken, r₅, htake, hoffset⟩ := of_bind_ok hoffset
    show (takeWord "offset" >>= _) r₄ = _
    rw [bind_apply, htake, ok_bind]
    cases taken with
    | true =>
      obtain ⟨b, r₆, hb, hoffset⟩ := of_bind_ok hoffset
      cases hoffset
      show ((anyScalar >>= fun b => pure (some first, some b)) >>= _) r₅ = _
      rw [bind_apply, bind_apply, hb]
      rfl
    | false =>
      obtain ⟨comma, r₆, hcomma, hoffset⟩ := of_bind_ok hoffset
      show (takeSymbol "," >>= _) r₅ = _
      rw [bind_apply, hcomma, ok_bind]
      cases comma with
      | true =>
        obtain ⟨b, r₇, hb, hoffset⟩ := of_bind_ok hoffset
        cases hoffset
        show ((anyScalar >>= fun b => pure (some b, some first)) >>= _) r₆ = _
        rw [bind_apply, bind_apply, hb]
        rfl
      | false =>
        cases hoffset
        rfl

def queryText (q : QueryState) (item table condition : String) : String :=
  "select " ++ item ++ " from " ++ quoteIdentifier table ++ condition ++ q.orderText ++ q.windowText

/-- The place behind the name of the table. -/
def tailPlace (item table : String) : Nat :=
  7 + Bytes.lengthOf item.toList + Bytes.lengthOf " from ".toList +
    Bytes.lengthOf (quoteIdentifier table).toList

def selectLexemes (item table : String) (ls rest : List Lexeme) : List Lexeme :=
  ⟨.word "select", "select", 0⟩ :: (ls ++ ⟨.word "from", "from", 7 + Bytes.lengthOf item.toList + 1⟩ ::
    ⟨.name table, quoteIdentifier table,
      7 + Bytes.lengthOf item.toList + Bytes.lengthOf " from ".toList⟩ :: rest)

section Selected

variable {text item : String} {ls rest : List Lexeme} {s : Selection} (hs : Chosen text item ls s)
  (table : String)
include hs

theorem cut_select {tail : List Char} (hpause : Pause tail)
    (hcut : Cut Pause (tailPlace item table) tail rest) :
    Cut Pause 0 ("select ".toList ++ (item.toList ++ (" from ".toList ++
      ((quoteIdentifier table).toList ++ tail)))) (selectLexemes item table ls rest) := by
  have hselect : Cut Anything 0 "select ".toList ([⟨.word "select", "select", 0⟩] ++ []) :=
    (Cut.word_blank (w := "select") (by decide)).append .space fun rest _ => ⟨rest, rfl⟩
  have hfrom : ∀ o, Cut Anything o " from ".toList [⟨.word "from", "from", o + 1⟩] := fun o =>
    .spaced (s := "from") fun _ => .word_blank (by decide)
  have htable := (Cut.quoted table).append hcut fun _ hr => (hpause.append hr).ends
  have hitem := hs.cut.append ((hfrom _).andThen htable) fun _ _ => ⟨_, rfl⟩
  exact hselect.andThen hitem

theorem marks_select : marks (selectLexemes item table ls rest) = marks rest := by
  show marks ([⟨.word "select", "select", 0⟩] ++ (ls ++ ([⟨.word "from", "from", _⟩] ++
    ([⟨.name table, quoteIdentifier table, _⟩] ++ rest)))) = _
  rw [marks_append, marks_append, marks_append, marks_append, hs.marks]
  rfl

theorem statement_select {condition : Option Scalar} {orderings : Option (List OrderTerm)}
    {limit offset : Option Scalar} (hrest : Before ["where", "order", "limit"] rest)
    (h : Part.clauses rest = .ok ((condition, orderings, limit, offset), [])) :
    Parser.statement text (selectLexemes item table ls rest) =
      .ok (.select { selections := [s], source := some ⟨table, none⟩, condition,
                     orderings := orderings.getD [], limit, offset }, []) := by
  have hword : isWord "select" ⟨.word "select", "select", 0⟩ = true := rfl
  unfold selectLexemes Parser.statement
  rw [choice_cons, if_pos hword, bind_apply, select_chosen table _ _ hs hrest h]
  rfl

end Selected

/-- Statements of a query with different windows are read alike, but for their windows. Their
parameters are those of the condition. -/
theorem readsAs_windows (q : QueryState) (table item : String) {condition : String}
    {own : List Cell} {good : Parameters → List Cell → Option Scalar → Prop}
    (h : Part (clause "where" anyScalar) condition own ["where", "order", "limit"] ["order", "limit"]
      good) :
    ∃ a orderings ps, ps.count = own.length ∧ good ps own a ∧
      List.Forall₂ SelectPlan.Orders orderings (q.orderings.getD []) ∧
      ∀ (limit offset : Option Nat) {ls : List Lexeme} {s : Selection},
        Chosen (queryText { q with limit, offset } item table condition) item ls s →
        ReadsAs (queryText { q with limit, offset } item table condition)
          (some (.select {
            selections := [s], source := some ⟨table, none⟩, condition := a, orderings
            limit := (Part.windowScalars limit offset).1
            offset := (Part.windowScalars limit offset).2 }), ps) := by
  obtain ⟨hpause, hfront⟩ := Part.front_part q h
  obtain ⟨la, ⟨a, orderings⟩, hcut, hmarks, hread, hgood⟩ := hfront (tailPlace item table)
  have hbound := Parameters.bound_ofLexemes hcut.calm hcut.ascending hmarks
  obtain ⟨hcondition, horderings⟩ := hgood _ _ hbound
  refine ⟨a, orderings.getD [], Parameters.ofLexemes la,
    (Parameters.count_ofLexemes hcut.calm).trans hmarks, hcondition, horderings, ?_⟩
  intro limit offset ls s hs
  obtain ⟨hpause', hwindow⟩ := Part.window { q with limit, offset }
  obtain ⟨lb, w, hcut', hmarks', hread', hgood'⟩ := hwindow
    (tailPlace item table + Bytes.lengthOf (condition ++ q.orderText).toList)
  have hnone : marks lb = [] := List.eq_nil_of_length_eq_zero hmarks'
  obtain rfl : w = Part.windowScalars limit offset := hgood' {} [] (by rw [hnone]; exact .nil)
  have hall := cut_select hs table (hpause.append hpause')
    (hcut.append hcut' fun rest hrest => hpause'.append hrest)
  have htext : (queryText { q with limit, offset } item table condition).toList =
    "select ".toList ++
      (item.toList ++ (" from ".toList ++ ((quoteIdentifier table).toList ++
        ((condition ++ q.orderText).toList ++
          (QueryState.windowText { q with limit, offset }).toList)))) := by
    unfold queryText
    simp only [String.toList_append, List.append_assoc]
    rfl
  rw [← htext] at hall
  obtain ⟨hlast, hwindow⟩ := hread' [] (before_nil _)
  rw [List.append_nil] at hlast hwindow
  obtain ⟨hbefore, hfront⟩ := hread lb hlast
  have hstatement := statement_select hs table hbefore (Part.clauses_window hfront hwindow)
  have hmarksAll : marks (selectLexemes item table ls (la ++ lb)) = marks la := by
    rw [marks_select hs, marks_append, hnone, List.append_nil]
  rw [← Parameters.ofLexemes_congr hall.calm hcut.calm hmarksAll]
  exact hall.readsAs pause_nil hstatement

theorem noZero_windowText (q : QueryState) : NoZero q.windowText := by
  have hnumber : ∀ n : Nat, NoZero (toString n) := fun n => by
    unfold NoZero
    rw [show (toString n).toList = Nat.toDigits 10 n from String.toList_ofList]
    exact zeroless_toDigits n
  unfold QueryState.windowText
  split
  · simp only [noZero_append, hnumber, and_true]
    decide
  · simp only [noZero_append, hnumber, and_true]
    decide
  · simp only [noZero_append, hnumber, and_true]
    decide
  · decide

theorem noZero_orderText (q : QueryState) :
    NoZero q.orderText ↔ ∀ k ∈ q.orderings.getD [], NoZero k.column := by
  have hterm : ∀ k : SortTerm, NoZero k.text ↔ NoZero k.column := fun k => by
    have hdirection : NoZero (if k.ascending then "" else " desc") := by
      cases k.ascending <;> decide
    rw [SortTerm.text, noZero_append, noZero_quoteIdentifier, and_iff_left hdirection]
  unfold QueryState.orderText
  split
  · rename_i k ks ho
    have horder : NoZero " order by " := by decide
    rw [ho, Option.getD_some, noZero_append, and_iff_right horder, noZero_intercalate (by decide),
      List.forall_mem_map]
    exact forall₂_congr fun k _ => hterm k
  · rename_i hnone
    refine iff_of_true (by decide) fun k hk => ?_
    cases ho : q.orderings with
    | none =>
      rw [ho] at hk
      cases hk
    | some ks =>
      cases ks with
      | nil =>
        rw [ho] at hk
        cases hk
      | cons k ks => exact absurd ho (hnone k ks)

/-- The statement of a query has a zero character just where its item, its table, its condition or a
column that it is ordered by has. -/
theorem noZero_queryText (q : QueryState) (item table condition : String) :
    NoZero (queryText q item table condition) ↔ NoZero item ∧ NoZero table ∧ NoZero condition ∧
      ∀ k ∈ q.orderings.getD [], NoZero k.column := by
  have hselect : NoZero "select " := by decide
  have hfrom : NoZero " from " := by decide
  unfold queryText
  simp only [noZero_append, noZero_quoteIdentifier, noZero_orderText, noZero_windowText q,
    hselect, hfrom, true_and, and_true, and_assoc]

/-- The statement of a query is read with the clauses of the query, and its parameters are those of
its condition. -/
theorem readsAs_query (q : QueryState) (table : String) {item condition : String} {ls : List Lexeme}
    {s : Selection} {own : List Cell} {good : Parameters → List Cell → Option Scalar → Prop}
    (hs : Chosen (queryText q item table condition) item ls s)
    (h : Part (clause "where" anyScalar) condition own ["where", "order", "limit"] ["order", "limit"]
      good) :
    ∃ a orderings ps, ReadsAs (queryText q item table condition)
        (some (.select {
          selections := [s], source := some ⟨table, none⟩, condition := a, orderings
          limit := (Part.windowScalars q.limit q.offset).1
          offset := (Part.windowScalars q.limit q.offset).2 }), ps) ∧
      ps.count = own.length ∧ good ps own a ∧
      List.Forall₂ SelectPlan.Orders orderings (q.orderings.getD []) := by
  obtain ⟨a, orderings, ps, hcount, hgood, horders, hread⟩ := readsAs_windows q table item h
  exact ⟨a, orderings, ps, hread q.limit q.offset hs, hcount, hgood, horders⟩

end RecordMapper.Sql
