import RecordMapper.Proofs.Creating

/-!
# The texts of definitions

What the texts that create a table, add a column or create an index are read as.

1. `Separated`: lexemes that are read item by item, with commas between the items.
2. `indexedColumn_quoted`, `Column.piece_declaration`: one column of an index, and one of a table
   whose collation the engine knows.
3. `readsAs_createIndex`, `readsAs_addStatement` and `readsAs_createStatement`.
-/

namespace RecordMapper.Sql

open Lexeme RecordMapper.Sql.Parser

/-! ## Lists -/

/-- A blank, a comma, a closing parenthesis or nothing follows. -/
def Delimited (rest : List Char) : Prop := Stops (fun c => c != ' ' && c != ',' && c != ')') rest

theorem delimited_nil : Delimited [] := by rintro _ ⟨⟩

theorem delimited_cons {c : Char} (h : (c != ' ' && c != ',' && c != ')') = false)
    (rest : List Char) :
    Delimited (c :: rest) := by
  rintro c' ⟨⟩
  exact h

instance : Following Delimited := ⟨Stops.head, [], delimited_nil⟩

theorem Delimited.cases {rest : List Char} (h : Delimited rest) :
    rest = [] ∨ ∃ c r, rest = c :: r ∧ (c = ' ' ∨ c = ',' ∨ c = ')') := by
  cases rest with
  | nil => exact .inl rfl
  | cons c r =>
    have hc := h c rfl
    simp only [Bool.and_eq_false_iff, bne_eq_false_iff_eq, or_assoc] at hc
    exact .inr ⟨c, r, rfl, hc⟩

theorem Delimited.ends {rest : List Char} (h : Delimited rest) : Ends rest := by
  obtain rfl | ⟨c, r, rfl, hc⟩ := h.cases
  · exact ends_nil
  · rcases hc with rfl | rfl | rfl
    · exact ends_cons rfl r
    · exact ends_cons rfl r
    · exact ends_cons rfl r

theorem Cut.word_delimited {w : String} (hw : isName w = true) (o : Nat) :
    Cut Delimited o w.toList [wordAt w o] := by
  refine (Cut.word hw).weaken fun rest h => ?_
  obtain rfl | ⟨c, r, rfl, hc⟩ := h.cases
  · exact ⟨by rintro _ ⟨⟩, by simp⟩
  · rcases hc with rfl | rfl | rfl
    · exact ⟨by rintro _ ⟨⟩; rfl, by simp⟩
    · exact ⟨by rintro _ ⟨⟩; rfl, by simp⟩
    · exact ⟨by rintro _ ⟨⟩; rfl, by simp⟩

def quotedName (c : String) (o : Nat) : Lexeme := ⟨.name c, quoteIdentifier c, o⟩

theorem name_quotedName (c : String) (o : Nat) (r : List Lexeme) :
    name (quotedName c o :: r) = .ok (c, r) := name_of_nameOf? rfl (by rintro s ⟨⟩) r

/-- Lexemes behind an item of a list: a comma, what closes the list, or none. -/
def Follows (r : List Lexeme) : Prop :=
  ∀ l, r.head? = some l → isSymbol "," l = true ∨ isSymbol ")" l = true

theorem follows_nil : Follows [] := nofun

theorem follows_comma (o : Nat) (r : List Lexeme) : Follows (⟨.symbol ",", ",", o⟩ :: r) := by
  rintro _ ⟨⟩
  exact .inl rfl

theorem follows_closing (o : Nat) (r : List Lexeme) : Follows (⟨.symbol ")", ")", o⟩ :: r) := by
  rintro _ ⟨⟩
  exact .inr rfl

section Separated

variable {α β : Type} {item : Parser β} {P : α → β → Prop}

/-- Lexemes that are read as an item, which starts with a quoted name. -/
structure ReadsItem (item : Parser β) (ls : List Lexeme) (b : β) : Prop where
  starts : ∃ c o r, ls = quotedName c o :: r
  reads : ∀ r, Follows r → item (ls ++ r) = .ok (b, r)

/-- Lexemes that are read item by item, with commas between the items. -/
inductive Separated (item : Parser β) (P : α → β → Prop) : List α → List β → List Lexeme → Prop
  | single {a : α} {b : β} {ls : List Lexeme} : ReadsItem item ls b → P a b →
    Separated item P [a] [b] ls
  | cons {a : α} {b : β} {as : List α} {bs : List β} {ls more : List Lexeme} (o : Nat) :
      ReadsItem item ls b → P a b → Separated item P as bs more →
      Separated item P (a :: as) (b :: bs) (ls ++ ⟨.symbol ",", ",", o⟩ :: more)

/-- A text that is cut into the lexemes of an item. -/
def Piece (item : Parser β) (text : String) (P : β → Prop) : Prop :=
  ∀ o, ∃ ls b, Cut Delimited o text.toList ls ∧ ReadsItem item ls b ∧ P b

theorem Separated.forall₂ {as : List α} {bs : List β} {ls : List Lexeme}
    (h : Separated item P as bs ls) :
    List.Forall₂ P as bs := by
  induction h with
  | single _ h => exact .cons h .nil
  | cons _ _ h _ ih => exact .cons h ih

theorem Separated.length_lt {as : List α} {bs : List β} {ls : List Lexeme}
    (h : Separated item P as bs ls) (r : List Lexeme) : bs.length < (ls ++ r).length + 1 := by
  induction h with
  | single hitem _ =>
    obtain ⟨c, o, ls, rfl⟩ := hitem.starts
    simp only [List.length_nil, List.length_append, List.length_cons]
    omega
  | cons _ hitem _ _ ih =>
    obtain ⟨c, o, ls, rfl⟩ := hitem.starts
    simp only [List.length_append, List.length_cons] at ih ⊢
    omega

/-- What stands between the items of a list: a comma, which may have a blank behind it. -/
structure Comma (sep : String) : Prop where
  cut : ∀ o, Cut Anything o sep.toList [⟨.symbol ",", ",", o⟩]
  starts : ∀ rest, Delimited (sep.toList ++ rest)

theorem Comma.plain : Comma "," :=
  ⟨fun _ => .symbol (by decide), fun rest => delimited_cons rfl rest⟩

theorem Comma.spaced : Comma ", " where
  cut o := by
    have hcomma : Cut Anything o ", ".toList ([⟨.symbol ",", ",", o⟩] ++ []) :=
      (Cut.symbol (s := ",") (by decide)).andThen .space
    exact hcomma
  starts rest := delimited_cons rfl _

theorem cut_separated {sep : String} (hsep : Comma sep) (text : α → String) (as : List α) (a : α)
    (h : ∀ b ∈ a :: as, Piece item (text b) (P b)) (o : Nat) :
    ∃ bs ls, Cut Delimited o (sep.intercalate ((a :: as).map text)).toList ls ∧
      Separated item P (a :: as) bs ls := by
  induction as generalizing a o with
  | nil =>
    obtain ⟨ls, b, hcut, hitem, hP⟩ := h a List.mem_cons_self o
    refine ⟨[b], ls, ?_, .single hitem hP⟩
    rw [List.map_singleton, String.intercalate_singleton]
    exact hcut
  | cons b rest ih =>
    obtain ⟨ls, x, hcut, hitem, hP⟩ := h a List.mem_cons_self o
    obtain ⟨bs, more, hmore, hlisted⟩ := ih b (fun c hc => h c (List.mem_cons_of_mem _ hc))
      (o + Bytes.lengthOf (text a).toList + Bytes.lengthOf sep.toList)
    refine ⟨x :: bs, _, ?_, .cons (o + Bytes.lengthOf (text a).toList) hitem hP hlisted⟩
    rw [List.map_cons, List.map_cons, String.intercalate_cons_cons, String.append_assoc,
      String.toList_append, String.toList_append]
    refine hcut.append ((hsep.cut _).andThen hmore) fun rest _ => ?_
    rw [List.append_assoc]
    exact hsep.starts _

theorem commaList_separated {as : List α} {bs : List β} {ls : List Lexeme}
    (h : Separated item P as bs ls) (o : Nat) (r : List Lexeme) : ∀ fuel, bs.length ≤ fuel →
      commaList item fuel (ls ++ ⟨.symbol ")", ")", o⟩ :: r) =
        .ok (bs, ⟨.symbol ")", ")", o⟩ :: r) := by
  induction h with
  | single hitem _ =>
    rintro (_ | fuel) hf
    · cases hf
    · refine commaList_single (hitem.reads _ (follows_closing o r)) (fun l hl => ?_) fuel
      cases hl
      rfl
  | cons o' hitem _ _ ih =>
    rintro (_ | fuel) hf
    · cases hf
    · rw [List.append_assoc, List.cons_append]
      exact commaList_cons (hitem.reads _ (follows_comma o' _)) rfl
        (ih fuel (Nat.le_of_succ_le_succ hf))

end Separated

theorem Follows.not_word {r : List Lexeme} (h : Follows r) (w : String) :
    takeWord w r = .ok (false, r) := by
  cases r with
  | nil => exact takeWord_nil w
  | cons l r =>
    refine takeWord_of_not ?_
    rcases h l rfl with hl | hl
    · exact not_isWord_of_isSymbol hl w
    · exact not_isWord_of_isSymbol hl w

theorem spelled_ok {α : Type} {p : Parser α} {a : α} {ls r : List Lexeme} (text : String)
    (h : p ls = .ok (a, r)) : ∃ spelling, spelled text p ls = .ok ((a, spelling), r) := by
  unfold spelled
  simp only [h, bind, Except.bind]
  split
  · exact ⟨_, rfl⟩
  · exact ⟨_, rfl⟩

theorem placeAhead_ok (text : String) (ls : List Lexeme) :
    ∃ o, placeAhead text ls = .ok (o, ls) := ⟨_, rfl⟩

/-! ## Columns of an index -/

def indexedColumn : Parser IndexedColumn := do
  let first ← peek
  let place := first.elim 0 Lexeme.offset
  let quoted := first.elim false fun l => l.spelling.startsWith "\""
  let column ← name
  let collation ← clause "collate" name
  let _ ← takeWord "desc"
  let _ ← takeWord "asc"
  return ⟨column, quoted, collation, place⟩

theorem indexedColumns_eq : indexedColumns = (do
    symbol "("
    let items ← withFuel (commaList indexedColumn)
    symbol ")"
    return items : Parser (List IndexedColumn)) := (rfl)

/-- A column of an index as a name in quotes gives it. -/
def NamedColumn (c : String) (w : IndexedColumn) : Prop :=
  w.name = c ∧ w.quoted = true ∧ w.collation = none

theorem indexedColumn_quoted (c : String) (o : Nat) :
    ReadsItem indexedColumn [quotedName c o] ⟨c, true, none, o⟩ := by
  have hquote : (quoteIdentifier c).startsWith "\"" = true := by
    unfold quoteIdentifier quoteWith
    simp
  refine ⟨⟨c, o, [], rfl⟩, fun r hr => ?_⟩
  unfold indexedColumn
  rw [List.singleton_append, bind_apply, peek_cons, ok_bind]
  simp only
  rw [bind_apply, name_quotedName, ok_bind, bind_apply]
  unfold clause
  rw [bind_apply, hr.not_word, ok_bind]
  simp only [Bool.false_eq_true, if_false]
  rw [pure_apply, ok_bind, bind_apply, hr.not_word, ok_bind, bind_apply, hr.not_word,
    ok_bind, pure_apply]
  show Except.ok (IndexedColumn.mk c ((quoteIdentifier c).startsWith "\"") none o, r) = _
  rw [hquote]

theorem piece_indexedColumn (c : String) :
    Piece indexedColumn (quoteIdentifier c) (NamedColumn c) :=
  fun o => ⟨_, _, (Cut.quoted c).weaken fun _ h => h.ends, indexedColumn_quoted c o, rfl, rfl, rfl⟩

theorem indexedColumns_separated {cs : List String} {columns : List IndexedColumn}
    {ls : List Lexeme} (h : Separated indexedColumn NamedColumn cs columns ls) (o o' : Nat)
    (r : List Lexeme) :
    indexedColumns (⟨.symbol "(", "(", o⟩ :: (ls ++ ⟨.symbol ")", ")", o'⟩ :: r)) =
      .ok (columns, r) := by
  rw [indexedColumns_eq, bind_apply, symbol_cons rfl, ok_bind, bind_apply]
  unfold withFuel
  rw [commaList_separated h _ _ _ (h.length_lt _).le, ok_bind, bind_apply, symbol_cons rfl]
  rfl

/-! ## Words -/

/-- The lexemes of words with a blank before each. -/
def wordsAt : List String → Nat → List Lexeme
  | [], _ => []
  | w :: r, o => wordAt w (o + 1) :: wordsAt r (o + 1 + Bytes.lengthOf w.toList)

theorem delimited_spacedWords (ws : List String) {rest : List Char} (h : Delimited rest) :
    Delimited (spacedWords ws ++ rest) := by
  cases ws with
  | nil => exact h
  | cons w r => exact delimited_cons rfl _

theorem cut_wordsAt (ws : List String) (o : Nat) (hw : ∀ w ∈ ws, isName w = true) :
    Cut Delimited o (spacedWords ws) (wordsAt ws o) := by
  induction ws generalizing o with
  | nil => exact Cut.nil.weaken fun _ _ => trivial
  | cons w r ih =>
    have hspace : Bytes.lengthOf [' '] = 1 := rfl
    have hword : Cut Delimited o ([' '] ++ w.toList) ([] ++ [wordAt w (o + 1)]) :=
      Cut.space.andThen (.word_delimited (hw w List.mem_cons_self) _)
    have hrest := ih (o + Bytes.lengthOf ([' '] ++ w.toList)) fun v hv =>
      hw v (List.mem_cons_of_mem _ hv)
    rw [Bytes.lengthOf_append, hspace, ← Nat.add_assoc] at hrest
    exact hword.append (by rw [Bytes.lengthOf_append, hspace, ← Nat.add_assoc]; exact hrest)
      fun rest h => delimited_spacedWords r h

/-! ## Indices -/

theorem createIndex_read (text : String) (unique : Bool) (name table : String) {cs : List String}
    {columns : List IndexedColumn} {ls : List Lexeme}
    (h : Separated indexedColumn NamedColumn cs columns ls) (i j k l n o t p z : Nat) :
    ∃ definition,
      createIndex text unique (wordAt "index" i :: wordAt "if" j :: wordAt "not" k :: wordAt "exists" l ::
        quotedName name n :: wordAt "on" o :: quotedName table t :: ⟨.symbol "(", "(", p⟩ ::
          (ls ++ [⟨.symbol ")", ")", z⟩])) =
        .ok (.createIndex unique true name table columns definition, []) := by
  have hindex : isWord "index" (wordAt "index" i) = true := isWord_self (by decide) i
  have hon : isWord "on" (wordAt "on" o) = true := isWord_self (by decide) o
  obtain ⟨spelling, hspelled⟩ := spelled_ok text (name_quotedName table t (⟨.symbol "(", "(", p⟩ ::
    (ls ++ [⟨.symbol ")", ")", z⟩])))
  obtain ⟨start, hstart⟩ :=
    placeAhead_ok text (quotedName name n :: wordAt "on" o :: quotedName table t ::
    ⟨.symbol "(", "(", p⟩ :: (ls ++ [⟨.symbol ")", ")", z⟩]))
  obtain ⟨place, hplace⟩ := placeAhead_ok text (quotedName table t ::
    ⟨.symbol "(", "(", p⟩ :: (ls ++ [⟨.symbol ")", ")", z⟩]))
  obtain ⟨stop, hstop⟩ := placeAhead_ok text []
  refine ⟨⟨(if unique then "CREATE UNIQUE INDEX " else "CREATE INDEX ") ++ slice text start place, spelling,
    slice text (place + spelling.utf8ByteSize) stop, ""⟩, ?_⟩
  unfold createIndex
  rw [bind_apply, word_cons hindex, ok_bind, bind_apply, ifNotExists_read, ok_bind,
    bind_apply, hstart,
    ok_bind, bind_apply, name_quotedName, ok_bind, bind_apply, word_cons hon, ok_bind,
    bind_apply, hplace, ok_bind, bind_apply, hspelled, ok_bind]
  dsimp only
  rw [bind_apply, indexedColumns_separated h, ok_bind, bind_apply, hstop]
  rfl

theorem Cut.spaced_quoted (c : String) (o : Nat) :
    Cut Ends o (' ' :: (quoteIdentifier c).toList) [quotedName c (o + 1)] := by
  have hname : Cut Ends (o + 1) (quoteIdentifier c).toList [quotedName c (o + 1)] := Cut.quoted c
  exact Cut.space.andThen hname

/-- The words between `create` and the name of an index. -/
def indexWords (unique : Bool) : List String :=
  (if unique then ["unique"] else []) ++ ["index", "if", "not", "exists"]

theorem cut_createIndex (name table c : String) (cs : List String) (unique : Bool) :
    ∃ columns ls w n o t p z, Separated indexedColumn NamedColumn (c :: cs) columns ls ∧
      Cut Delimited 0 (createIndexStatement name table (c :: cs) unique).toList
        (wordAt "create" 0 :: (wordsAt (indexWords unique) w ++ quotedName name n :: wordAt "on" o ::
          quotedName table t :: ⟨.symbol "(", "(", p⟩ :: (ls ++ [⟨.symbol ")", ")", z⟩]))) := by
  have hparen : ∀ o, Cut Anything o "(".toList [⟨.symbol "(", "(", o⟩] :=
    fun o => .symbol (by decide)
  have hclosing : ∀ o, Cut Anything o ")".toList [⟨.symbol ")", ")", o⟩] :=
    fun o => .symbol (by decide)
  have hwords : ∀ w ∈ indexWords unique, isName w = true := by
    cases unique with
    | true => decide
    | false => decide
  have hhead := (Cut.word_delimited (w := "create") (by decide) 0).append
    (cut_wordsAt (indexWords unique) _ hwords) fun rest h => delimited_spacedWords _ h
  have hname := hhead.append (Cut.spaced_quoted name _) fun rest _ => delimited_cons rfl _
  have hon := hname.append (cut_wordsAt ["on"] _ (by decide)) fun rest _ => ends_cons rfl _
  have htable := hon.append (Cut.spaced_quoted table _) fun rest _ => delimited_cons rfl _
  have hopen := htable.append (hparen _) fun rest _ => ends_cons rfl _
  obtain ⟨columns, ls, hcut, hseparated⟩ :=
    cut_separated (P := NamedColumn) .spaced quoteIdentifier cs c
    (fun c _ => piece_indexedColumn c) (0 + Bytes.lengthOf _)
  have hall := (hopen.andThen hcut).append (hclosing _) fun rest _ =>
    delimited_cons rfl _
  have htext : (createIndexStatement name table (c :: cs) unique).toList = "create".toList ++
      spacedWords (indexWords unique) ++ ' ' :: (quoteIdentifier name).toList ++
        spacedWords ["on"] ++
      ' ' :: (quoteIdentifier table).toList ++ "(".toList ++
      (", ".intercalate ((c :: cs).map quoteIdentifier)).toList ++ ")".toList := by
    unfold createIndexStatement
    cases unique with
    | true => simp [spacedWords, indexWords]
    | false => simp [spacedWords, indexWords]
  rw [← htext] at hall
  simp only [List.append_assoc, List.cons_append, List.nil_append] at hall
  exact ⟨columns, ls, _, _, _, _, _, _, hseparated, hall.weaken fun _ _ => trivial⟩

/-- The text that creates an index is read as that. -/
theorem readsAs_createIndex (name table c : String) (cs : List String) (unique : Bool) :
    ∃ columns definition parameters, List.Forall₂ NamedColumn (c :: cs) columns ∧
      ReadsAs (createIndexStatement name table (c :: cs) unique)
        (some (.createIndex unique true name table columns definition), parameters) := by
  have hc : foldCase "create" = "create" := by decide
  have hi : foldCase "index" = "index" := by decide
  have hu : foldCase "unique" = "unique" := by decide
  obtain ⟨columns, ls, w, n, o, t, p, z, hseparated, hcut⟩ := cut_createIndex name table c cs unique
  cases unique with
  | true =>
    obtain ⟨definition, hdefinition⟩ := createIndex_read
      (createIndexStatement name table (c :: cs) true) true name table hseparated _ _ _ _ n o t p z
    refine ⟨columns, definition, _, hseparated.forall₂, hcut.readsAs delimited_nil ?_⟩
    unfold statement
    simp only [choice_cons, isWord_wordAt, hc, hu, String.reduceBEq, Bool.false_eq_true, if_false,
      beq_self_eq_true, if_true, indexWords, wordsAt, List.cons_append]
    exact hdefinition
  | false =>
    obtain ⟨definition, hdefinition⟩ := createIndex_read
      (createIndexStatement name table (c :: cs) false) false name table hseparated _
        _ _ _ n o t p z
    refine ⟨columns, definition, _, hseparated.forall₂, hcut.readsAs delimited_nil ?_⟩
    unfold statement
    simp only [choice_cons, isWord_wordAt, hc, hi, String.reduceBEq, Bool.false_eq_true, if_false,
      beq_self_eq_true, if_true, indexWords, List.nil_append, wordsAt, List.cons_append]
    exact hdefinition

/-! ## Types -/

/-- A word that may start the name of a type. -/
structure TypeWord (w : String) : Prop where
  isName : isName w = true
  free : reserved.contains (foldCase w) = false
  not_generated : foldCase w ≠ "generated"

def typeText (base : String) : Option Nat → String
  | none => base
  | some n => base ++ "(" ++ toString n ++ ")"

theorem columnType_typeText {d : DataType} {ticks : Bool} {size : Option Nat} {type : String}
    (h : d.columnType ticks size = some type) :
    ∃ base n, TypeWord base ∧ type = typeText base n := by
  have hword : ∀ w ∈ ["integer", "bigint", "float", "varchar", "blob", "datetime"], TypeWord w := by
    have hall : ∀ w ∈ ["integer", "bigint", "float", "varchar", "blob", "datetime"],
        isName w = true ∧ reserved.contains (foldCase w) = false ∧ foldCase w ≠ "generated" := by
      decide
    exact fun w hw => ⟨(hall w hw).1, (hall w hw).2.1, (hall w hw).2.2⟩
  cases d with
  | unsupported name => cases h
  | text =>
    cases size with
    | none => exact ⟨"varchar", none, hword _ (by simp), (Option.some.inj h).symm⟩
    | some n => exact ⟨"varchar", some n, hword _ (by simp), (Option.some.inj h).symm⟩
  | uuid => exact ⟨"varchar", some 36, hword _ (by simp), (Option.some.inj h).symm⟩
  | datetime =>
    cases ticks with
    | true => exact ⟨"bigint", none, hword _ (by simp), (Option.some.inj h).symm⟩
    | false => exact ⟨"datetime", none, hword _ (by simp), (Option.some.inj h).symm⟩
  | _ => exact ⟨_, none, hword _ (by simp), (Option.some.inj h).symm⟩

def typeLexemes (base : String) : Option Nat → Nat → List Lexeme
  | none, o => [wordAt base o]
  | some n, o =>
    let p := o + Bytes.lengthOf base.toList
    [wordAt base o, ⟨.symbol "(", "(", p⟩, ⟨.integer (toString n), toString n, p + 1⟩,
      ⟨.symbol ")", ")", p + 1 + Bytes.lengthOf (toString n).toList⟩]

theorem cut_typeText {base : String} (hb : TypeWord base) (n : Option Nat) (o : Nat) :
    Cut Delimited o (typeText base n).toList (typeLexemes base n o) := by
  cases n with
  | none => exact .word_delimited hb.isName o
  | some n =>
    have hparen := fun o => Cut.symbol (s := "(") (o := o) (by decide)
    have hclosing := fun o => Cut.symbol (s := ")") (o := o) (by decide)
    have hword := (Cut.word hb.isName (o := o)).append (hparen _) fun rest _ =>
      ⟨by rintro _ ⟨⟩; rfl, by simp⟩
    have hnumber := hword.andThen (Cut.number n)
    have hall := hnumber.append (hclosing _) fun rest _ => by
      rintro _ ⟨⟩
      rfl
    have hlen : Bytes.lengthOf "(".toList = 1 := rfl
    simp only [Bytes.lengthOf_append, hlen, ← Nat.add_assoc] at hall
    unfold typeText
    rw [String.toList_append, String.toList_append, String.toList_append]
    exact hall.weaken fun _ _ => trivial

/-- Lexemes that no type goes on with. -/
def Firm (r : List Lexeme) : Prop := ∀ l, r.head? = some l →
  nameOf? l = none ∧ ∀ s, l.token ≠ .string s

theorem typeWords_firm {r : List Lexeme} (hr : Firm r) (fuel : Nat) :
    typeWords fuel r = .ok ([], r) := by
  cases fuel with
  | zero => rfl
  | succ fuel =>
    cases r with
    | nil => rfl
    | cons l r =>
      obtain ⟨hname, hstring⟩ := hr l rfl
      unfold typeWords
      rw [bind_apply, peek_cons, ok_bind]
      cases ht : l.token with
      | string text => exact absurd ht (hstring text)
      | _ =>
        simp only [ht, hname]
        rfl

theorem typeWords_word {w : String} (hw : TypeWord w) {r : List Lexeme} (hr : Firm r)
    (o fuel : Nat) :
    typeWords (fuel + 1) (wordAt w o :: r) = .ok ([w], r) := by
  have hname : nameOf? (wordAt w o) = some w := nameOf?_word hw.free
  have hgenerated : isWord "generated" (wordAt w o) = false := by
    rw [isWord_wordAt]
    exact beq_false_of_ne hw.not_generated
  unfold typeWords
  rw [bind_apply, peek_cons, ok_bind]
  simp only [hname, hgenerated, Bool.false_eq_true, if_false]
  show (next >>= _) _ = _
  rw [bind_apply, next_cons, ok_bind, bind_apply, typeWords_firm hr]
  rfl

theorem signedNumber_read (n o : Nat) (r : List Lexeme) :
    signedNumber (⟨.integer (toString n), toString n, o⟩ :: r) = .ok (toString n, r) := by
  unfold signedNumber
  rw [bind_apply, takeSymbol_of_not rfl, ok_bind, bind_apply, takeSymbol_of_not rfl, ok_bind]
  simp only [Bool.false_eq_true, if_false]
  rw [bind_apply, pure_apply, ok_bind, bind_apply, peek_cons, ok_bind]
  show Except.ok ("" ++ toString n, r) = _
  rw [String.empty_append]

theorem typeName_read {base : String} (hb : TypeWord base) (n : Option Nat) (o : Nat)
    {r : List Lexeme} (hr : Firm r) (hp : takeSymbol "(" r = .ok (false, r)) :
    typeName (typeLexemes base n o ++ r) = .ok (typeText base n, r) := by
  have hjoin : " ".intercalate [base] = base := String.intercalate_singleton
  unfold typeName withFuel
  rw [bind_apply]
  cases n with
  | none =>
    dsimp only [typeLexemes, List.singleton_append]
    rw [typeWords_word hb hr, ok_bind]
    simp only [List.isEmpty_cons, Bool.false_eq_true, if_false]
    rw [bind_apply, hp, ok_bind, hjoin]
    rfl
  | some n =>
    have hfirm : ∀ p q, Firm (⟨.symbol "(", "(", p⟩ :: q) := by
      rintro p q _ ⟨⟩
      exact ⟨rfl, nofun⟩
    dsimp only [typeLexemes, List.cons_append, List.nil_append]
    rw [typeWords_word hb (hfirm _ _), ok_bind]
    simp only [List.isEmpty_cons, Bool.false_eq_true, if_false]
    rw [bind_apply, takeSymbol_of rfl, ok_bind, hjoin]
    simp only [if_true]
    rw [bind_apply, signedNumber_read, ok_bind, bind_apply, takeSymbol_of_not rfl, ok_bind]
    simp only [Bool.false_eq_true, if_false]
    rw [bind_apply, pure_apply, ok_bind, bind_apply, symbol_cons rfl, ok_bind, pure_apply,
      String.append_empty]
    rfl

/-! ## Constraints -/

/-- Lexemes behind which neither a type nor a constraint goes on. -/
structure Closed (r : List Lexeme) : Prop where
  firm : Firm r
  sized : takeSymbol "(" r = .ok (false, r)
  words : ∀ w ∈ ["desc", "asc", "on", "autoincrement"], takeWord w r = .ok (false, r)

theorem Follows.closed {r : List Lexeme} (h : Follows r) : Closed r := by
  refine ⟨fun l hl => ?_, ?_, fun w _ => h.not_word w⟩
  · rcases h l hl with hs | hs
    · rw [nameOf?, token_of_isSymbol hs]
      exact ⟨rfl, nofun⟩
    · rw [nameOf?, token_of_isSymbol hs]
      exact ⟨rfl, nofun⟩
  · cases r with
    | nil => rfl
    | cons l r =>
      refine takeSymbol_of_not ?_
      rcases h l rfl with hs | hs
      · exact not_isSymbol_of_isSymbol hs (by decide)
      · exact not_isSymbol_of_isSymbol hs (by decide)

theorem closed_word {w : String} (hw : reserved.contains (foldCase w) = true)
    (hn : ∀ v ∈ ["desc", "asc", "on", "autoincrement"], foldCase w ≠ v) (o : Nat)
    (r : List Lexeme) :
    Closed (wordAt w o :: r) := by
  refine ⟨?_, takeSymbol_of_not rfl, fun v hv => takeWord_of_not ?_⟩
  · rintro _ ⟨⟩
    refine ⟨?_, nofun⟩
    show (if reserved.contains (foldCase w) then none else some w) = none
    rw [if_pos hw]
  · rw [isWord_wordAt]
    exact beq_false_of_ne (hn v hv)

/-- Lexemes that are read as constraints of a column. -/
structure Constrains (text : String) (ls : List Lexeme) (cs : List ColumnConstraint) : Prop where
  closed : ∀ r, Follows r → Closed (ls ++ r)
  reads : ∀ r, Follows r → ∀ fuel, cs.length < fuel →
    columnConstraints text fuel (ls ++ r) = .ok (cs, r)
  bounded : cs.length ≤ ls.length

variable {text : String} {ls r : List Lexeme} {cs : List ColumnConstraint}

theorem columnConstraints_step {c : ColumnConstraint} {ls : List Lexeme} {fuel : Nat}
    (h : columnConstraint? text ls = .ok (some c, r)) :
    columnConstraints text (fuel + 1) ls =
      (do return c :: (← columnConstraints text fuel) : Parser _) r := by
  rw [columnConstraints, bind_apply, h, ok_bind]

namespace Constrains

theorem nil : Constrains text [] [] := by
  refine ⟨fun r hr => hr.closed, fun r hr fuel hf => ?_, Nat.le_refl _⟩
  obtain ⟨fuel, rfl⟩ := Nat.exists_eq_add_of_lt hf
  have hnone : columnConstraint? text r = .ok (none, r) := by
    unfold columnConstraint?
    simp only [bind_apply, hr.not_word, ok_bind, Bool.false_eq_true, if_false, pure_apply]
  rw [show [].length + fuel + 1 = fuel + 1 by simp, List.nil_append]
  unfold columnConstraints
  rw [bind_apply, hnone, ok_bind]
  rfl

theorem cons {c : ColumnConstraint} (l : Lexeme) (more : List Lexeme) (h : Constrains text ls cs)
    (hclosed : ∀ r, Closed (l :: more ++ r))
    (hread : ∀ r, Closed r → columnConstraint? text (l :: more ++ r) = .ok (some c, r)) :
    Constrains text (l :: more ++ ls) (c :: cs) := by
  refine ⟨fun r _ => ?_, fun r hr fuel hf => ?_, ?_⟩
  · rw [List.append_assoc]
    exact hclosed _
  · obtain _ | fuel := fuel
    · cases hf
    · rw [List.append_assoc, columnConstraints_step (hread _ (h.closed r hr)), bind_apply,
        h.reads r hr fuel (Nat.lt_of_succ_lt_succ hf)]
      rfl
  · have := h.bounded
    simp only [List.length_append, List.length_cons]
    omega

theorem collate {k : String} (hk : reserved.contains (foldCase k) = false)
    (h : Constrains text ls cs) (o o' : Nat) :
    Constrains text (wordAt "collate" o :: wordAt k o' :: ls) (.collate k :: cs) := by
  have hc : foldCase "collate" = "collate" := by decide
  refine h.cons (wordAt "collate" o) [wordAt k o']
    (fun r => closed_word (by decide) (by decide) o _) fun r hr => ?_
  have hname : name (wordAt k o' :: r) = .ok (k, r) :=
    name_of_nameOf? (nameOf?_word hk) (by rintro s ⟨⟩) _
  unfold columnConstraint?
  simp only [List.cons_append, List.nil_append, choice_cons, pure_bind, isWord_wordAt, hc,
    String.reduceBEq, Bool.false_eq_true, if_false, beq_self_eq_true, if_true]
  rw [bind_apply, hname]
  rfl

theorem notNull (h : Constrains text ls cs) (o o' : Nat) :
    Constrains text (wordAt "not" o :: wordAt "null" o' :: ls) (.notNull :: cs) := by
  have hn : foldCase "not" = "not" := by decide
  have hnull : isWord "null" (wordAt "null" o') = true := isWord_self (by decide) o'
  refine h.cons (wordAt "not" o) [wordAt "null" o']
    (fun r => closed_word (by decide) (by decide) o _) fun r hr => ?_
  unfold columnConstraint?
  simp only [List.cons_append, List.nil_append, choice_cons, pure_bind, isWord_wordAt, hn,
    String.reduceBEq, Bool.false_eq_true, if_false, beq_self_eq_true, if_true]
  rw [bind_apply, word_cons hnull, ok_bind, bind_apply]
  unfold onConflict
  rw [bind_apply, hr.words "on" (by simp), ok_bind]
  rfl

/-- A key that does not count up, or one that does. -/
theorem primaryKey (h : Constrains text ls cs) (auto : Bool) (o o' o'' : Nat) :
    Constrains text (wordAt "primary" o :: wordAt "key" o' ::
      ((if auto then [wordAt "autoincrement" o''] else []) ++ ls))
        (.primaryKey false auto :: cs) := by
  have hp : foldCase "primary" = "primary" := by decide
  have hkey : isWord "key" (wordAt "key" o') = true := isWord_self (by decide) o'
  have hauto : isWord "autoincrement" (wordAt "autoincrement" o'') = true :=
    isWord_self (by decide) o''
  have hfold : foldCase "autoincrement" = "autoincrement" := by decide
  refine h.cons (wordAt "primary" o) (wordAt "key" o' ::
    if auto then [wordAt "autoincrement" o''] else [])
    (fun r => closed_word (by decide) (by decide) o _) fun r hr => ?_
  unfold columnConstraint?
  simp only [List.cons_append, choice_cons, pure_bind, isWord_wordAt, hp,
    String.reduceBEq, Bool.false_eq_true, if_false, beq_self_eq_true, if_true]
  rw [bind_apply, word_cons hkey, ok_bind]
  have hnot : ∀ w ∈ ["desc", "asc", "on"],
      takeWord w ((if auto then [wordAt "autoincrement" o''] else []) ++ r) =
        .ok (false, (if auto then [wordAt "autoincrement" o''] else []) ++ r) := by
    intro w hw
    cases auto with
    | false => exact hr.words w (by revert hw; simp; tauto)
    | true =>
      refine takeWord_of_not ?_
      rw [isWord_wordAt, hfold]
      revert w
      decide
  unfold onConflict
  rw [bind_apply, hnot "desc" (by simp), ok_bind, bind_apply, hnot "asc" (by simp), ok_bind, bind_apply,
    bind_apply, hnot "on" (by simp), ok_bind]
  simp only [Bool.false_eq_true, if_false]
  rw [pure_apply, ok_bind, bind_apply]
  cases auto with
  | false =>
    simp only [Bool.false_eq_true, if_false, List.nil_append]
    rw [hr.words "autoincrement" (by simp)]
    rfl
  | true =>
    simp only [if_true, List.singleton_append]
    rw [takeWord_cons, hauto]
    rfl

end Constrains

theorem columnSpec_read (column : String) {base : String} (hb : TypeWord base) (n : Option Nat)
    (h : Constrains text ls cs) (o p : Nat) (hr : Follows r) :
    columnSpec text (quotedName column o :: (typeLexemes base n p ++ (ls ++ r))) =
      .ok (⟨column, typeText base n, cs⟩, r) := by
  have hclosed := h.closed r hr
  have hlen : cs.length < (ls ++ r).length + 1 := by
    have := h.bounded
    rw [List.length_append]
    omega
  unfold columnSpec
  rw [bind_apply, name_quotedName, ok_bind, bind_apply, typeName_read hb n p hclosed.firm hclosed.sized,
    ok_bind, bind_apply]
  unfold withFuel
  rw [h.reads r hr _ hlen]
  rfl

/-! ## Statements -/

theorem addColumn_read (table : String) {ls : List Lexeme} {spec : ColumnSpec}
    (h : columnSpec text ls = .ok (spec, [])) (o p q a b : Nat) : ∃ spelling,
      statement text (wordAt "alter" o :: wordAt "table" p :: quotedName table q :: wordAt "add" a ::
        wordAt "column" b :: ls) = .ok (.addColumn table spec spelling, []) := by
  have hd : foldCase "add" = "add" := by decide
  have htable : isWord "table" (wordAt "table" p) = true := isWord_self (by decide) p
  have hcolumn : isWord "column" (wordAt "column" b) = true := isWord_self (by decide) b
  obtain ⟨spelling, hspelled⟩ := spelled_ok text h
  refine ⟨spelling, ?_⟩
  rw [statement_alter]
  unfold alterTable
  rw [bind_apply, word_cons htable, ok_bind, bind_apply, name_quotedName, ok_bind, choice_cons,
    isWord_wordAt, hd]
  simp only [String.reduceBEq, Bool.false_eq_true, if_false]
  rw [bind_apply, word_cons (isWord_self hd a), ok_bind, bind_apply, takeWord_cons,
    hcolumn, if_pos rfl, ok_bind, bind_apply, hspelled]
  rfl

theorem tableItems_separated {P : α → ColumnSpec → Prop} {as : List α} {specs : List ColumnSpec}
    (h : Separated (columnSpec text) P as specs ls) (o : Nat) (r : List Lexeme) : ∃ place, ∀ fuel,
      specs.length ≤ fuel → tableItems text fuel (ls ++ ⟨.symbol ")", ")", o⟩ :: r) =
        .ok ((specs, [], place), ⟨.symbol ")", ")", o⟩ :: r) := by
  induction h with
  | single hitem _ =>
    refine ⟨o, ?_⟩
    rintro (_ | fuel) hf
    · cases hf
    · unfold tableItems
      rw [bind_apply, hitem.reads _ (follows_closing o r), ok_bind, bind_apply]
      show (placeAhead text (⟨.symbol ")", ")", o⟩ :: r)).bind _ = _
      rfl
  | @cons _ _ as bs ls more o' hitem _ hmore ih =>
    obtain ⟨place, ih⟩ := ih
    refine ⟨place, ?_⟩
    rintro (_ | fuel) hf
    · cases hf
    · obtain ⟨c, q, rest, hstart⟩ : ∃ c q rest, more = quotedName c q :: rest := by
        cases hmore with
        | single h _ => exact h.starts
        | cons _ h _ _ =>
          obtain ⟨c, q, rest, rfl⟩ := h.starts
          exact ⟨c, q, _, rfl⟩
      have hnone : tableConstraintAhead (more ++ ⟨.symbol ")", ")", o⟩ :: r) =
          .ok (false, more ++ ⟨.symbol ")", ")", o⟩ :: r) := by
        rw [hstart]
        rfl
      rw [List.append_assoc, List.cons_append]
      unfold tableItems
      obtain ⟨_, hplace⟩ := placeAhead_ok text (⟨.symbol ",", ",", o'⟩ ::
        (more ++ ⟨.symbol ")", ")", o⟩ :: r))
      rw [bind_apply, hitem.reads _ (follows_comma o' _), ok_bind, bind_apply, hplace,
        ok_bind, bind_apply, takeSymbol_of rfl, ok_bind]
      simp only [if_true]
      rw [bind_apply, hnone, ok_bind]
      simp only [Bool.false_eq_true, if_false]
      rw [bind_apply, ih fuel (Nat.le_of_succ_le_succ hf)]
      rfl

/-- The words behind the columns of a table. -/
def rowidWords (without : Bool) : List String := if without then ["without", "rowid"] else []

theorem createTable_read {P : α → ColumnSpec → Prop} {as : List α} {specs : List ColumnSpec}
    (h : Separated (columnSpec text) P as specs ls) (table : String) (without : Bool)
    (c o i j k t p z w : Nat) : ∃ definition offset,
      statement text (wordAt "create" c :: wordAt "table" o :: wordAt "if" i :: wordAt "not" j ::
        wordAt "exists" k :: quotedName table t :: ⟨.symbol "(", "(", p⟩ ::
          (ls ++ ⟨.symbol ")", ")", z⟩ :: wordsAt (rowidWords without) w)) =
        .ok (.createTable true ⟨table, definition, offset, specs, [], without⟩, []) := by
  obtain ⟨spelling, hspelled⟩ := spelled_ok text (name_quotedName table t (⟨.symbol "(", "(", p⟩ ::
    (ls ++ ⟨.symbol ")", ")", z⟩ :: wordsAt (rowidWords without) w)))
  obtain ⟨offset, hoffset⟩ := placeAhead_ok text (quotedName table t :: ⟨.symbol "(", "(", p⟩ ::
    (ls ++ ⟨.symbol ")", ")", z⟩ :: wordsAt (rowidWords without) w))
  obtain ⟨place, hitems⟩ := tableItems_separated h z (wordsAt (rowidWords without) w)
  obtain ⟨closing, hclosing⟩ :=
    placeAhead_ok text (⟨.symbol ")", ")", z⟩ :: wordsAt (rowidWords without) w)
  refine ⟨⟨"CREATE TABLE ", spelling, slice text (offset + spelling.utf8ByteSize) place,
    slice text place (if without then text.utf8ByteSize else closing + 1)⟩, offset, ?_⟩
  rw [statement_createTable]
  unfold createTable
  rw [bind_apply, ifNotExists_read, ok_bind, bind_apply, hoffset, ok_bind, bind_apply,
    hspelled, ok_bind]
  dsimp only
  rw [bind_apply, symbol_cons rfl, ok_bind, bind_apply]
  unfold withFuel
  rw [hitems _ (h.length_lt _).le, ok_bind]
  dsimp only
  rw [bind_apply, hclosing, ok_bind, bind_apply, symbol_cons rfl, ok_bind, bind_apply]
  cases without with
  | false => rfl
  | true =>
    have hwithout : isWord "without" (wordAt "without" (w + 1)) = true := isWord_self (by decide) _
    have hrowid : ∀ o, isWord "rowid" (wordAt "rowid" o) = true := isWord_self (by decide)
    have hwords : wordsAt (rowidWords true) w =
        [wordAt "without" (w + 1), wordAt "rowid" (w + 1 + Bytes.lengthOf "without".toList + 1)] :=
          rfl
    rw [hwords, takeWord_cons, hwithout, if_pos rfl, ok_bind]
    simp only [if_true]
    rw [bind_apply, word_cons (hrowid _), ok_bind]
    rfl

end RecordMapper.Sql

/-! ## Columns -/

namespace RecordMapper

open RecordMapper.Sql RecordMapper.Sql.Parser

namespace Collation

theorem isName_of_named? {k : String} (h : (named? k).isSome = true) :
    isName k = true ∧ reserved.contains (foldCase k) = false := by
  have hfold : ∀ w ∈ ["binary", "nocase", "rtrim"], sameFolded k w = true →
      isName k = true ∧ reserved.contains (foldCase k) = false := by
    intro w hw hk
    have hall : ∀ w ∈ ["binary", "nocase", "rtrim"],
        foldCase w = w ∧ isName w = true ∧ reserved.contains w = false := by decide
    have hw' := hall w hw
    have hk : foldCase k = w := (beq_iff_eq.mp hk).trans hw'.1
    exact ⟨isName_of_foldCase (by rw [hk]; exact hw'.2.1), by rw [hk]; exact hw'.2.2⟩
  unfold named? at h
  split at h
  · rename_i hk
    exact hfold "binary" (by simp) hk
  · split at h
    · rename_i hk
      exact hfold "nocase" (by simp) hk
    · split at h
      · rename_i hk
        exact hfold "rtrim" (by simp) hk
      · cases h

end Collation

namespace Column

/-- The constraints that a table declares for a column. -/
def constraints (c : Column) : List ColumnConstraint :=
  (if c.isKey then [.primaryKey false c.autoIncrement] else []) ++
    (if c.nullable then [] else [.notNull]) ++ c.collation.elim [] fun k => [.collate k]

/-- A column that can be declared: only a key counts up, and the engine has its collation. -/
structure Declarable (c : Column) : Prop where
  counts : c.autoIncrement = true → c.isKey = true
  collation : ∀ k, c.collation = some k → (Collation.named? k).isSome = true

variable {c : Column}

theorem constrains_words (hc : c.Declarable) (text : String) (o : Nat) :
    Constrains text (wordsAt c.words o) c.constraints := by
  have hcollate : ∀ o, Constrains text (wordsAt (c.collation.elim [] fun k => ["collate", k]) o)
      (c.collation.elim [] fun k => [.collate k]) := by
    intro o
    cases hk : c.collation with
    | none => exact .nil
    | some k => exact .collate (Collation.isName_of_named? (hc.collation k hk)).2 .nil _ _
  have hnull : ∀ o, Constrains text
      (wordsAt ((if c.nullable then [] else ["not", "null"]) ++
        c.collation.elim [] fun k => ["collate", k]) o)
      ((if c.nullable then [] else [.notNull]) ++ c.collation.elim [] fun k => [.collate k]) := by
    intro o
    cases c.nullable with
    | true => exact hcollate o
    | false => exact (hcollate _).notNull _ _
  unfold words constraints
  rw [List.append_assoc, List.append_assoc, List.append_assoc]
  cases hkey : c.isKey with
  | false =>
    have hauto : c.autoIncrement = false := by
      by_contra h
      rw [hc.counts (Bool.eq_true_of_not_eq_false h)] at hkey
      cases hkey
    rw [hauto]
    exact hnull o
  | true =>
    cases c.autoIncrement with
    | false => exact (hnull _).primaryKey false _ _ 0
    | true => exact (hnull _).primaryKey true _ _ _

theorem isName_words (hc : c.Declarable) : ∀ w ∈ c.words, isName w = true := by
  have hkey : ∀ w ∈ ["primary", "key"], isName w = true := by decide
  have hauto : ∀ w ∈ ["autoincrement"], isName w = true := by decide
  have hnull : ∀ w ∈ ["not", "null"], isName w = true := by decide
  have hcollate : isName "collate" = true := by decide
  intro w hw
  unfold words at hw
  rcases List.mem_append.mp hw with hw | hw
  · rcases List.mem_append.mp hw with hw | hw
    · rcases List.mem_append.mp hw with hw | hw
      · split at hw
        · exact hkey w hw
        · cases hw
      · split at hw
        · exact hauto w hw
        · cases hw
    · split at hw
      · cases hw
      · exact hnull w hw
  · cases hk : c.collation with
    | none =>
      rw [hk] at hw
      cases hw
    | some k =>
      rw [hk] at hw
      rcases List.mem_pair.mp hw with rfl | rfl
      · exact hcollate
      · exact (Collation.isName_of_named? (hc.collation w hk)).1

/-- What the statement of a table says of a column. -/
def spec? (c : Column) (ticks : Bool) : Option ColumnSpec :=
  (c.storedType? ticks).map fun type => ⟨c.name, type, c.constraints⟩

/-- The declaration of a column is read as what it says. -/
theorem piece_declaration (hc : c.Declarable) {ticks : Bool} {declaration : String}
    (h : c.declaration ticks = .ok declaration) (text : String) :
    Piece (columnSpec text) declaration fun spec => c.spec? ticks = some spec := by
  obtain ⟨type, htype, htext⟩ := of_declaration h
  obtain ⟨base, n, hbase, rfl⟩ : ∃ base n, TypeWord base ∧ type = typeText base n := by
    unfold storedType? at htype
    split at htype
    · refine ⟨"integer", none, ⟨?_, ?_, ?_⟩, (Option.some.inj htype).symm⟩
      · decide
      · decide
      · decide
    · exact columnType_typeText htype
  intro o
  have hname : Cut Ends o (quoteIdentifier c.name).toList [quotedName c.name o] := Cut.quoted c.name
  have hhead := hname.append Cut.space fun rest _ => ends_cons rfl rest
  have hhead := hhead.andThen (cut_typeText hbase n _)
  have hall := hhead.append (cut_wordsAt c.words _ (isName_words hc)) fun rest hrest =>
    delimited_spacedWords c.words hrest
  have hchars : (quoteIdentifier c.name).toList ++ [' '] ++ (typeText base n).toList ++
      spacedWords c.words = declaration.toList := by
    rw [htext]
    simp
  rw [hchars] at hall
  refine ⟨_, ⟨c.name, typeText base n, c.constraints⟩, hall, ⟨⟨c.name, o, _, rfl⟩, fun r hr => ?_⟩, ?_⟩
  · simp only [List.append_nil, List.append_assoc, List.singleton_append]
    exact columnSpec_read c.name hbase n (constrains_words hc text _) o _ hr
  · unfold spec?
    rw [htype]
    rfl

end Column

namespace Mapping

variable {m : Mapping} {ticks : Bool} {text : String}

/-- The text that adds a column is read as what the column says. -/
theorem readsAs_addStatement {c : Column} (hc : c.Declarable)
    (h : m.addStatement ticks c = .ok text) :
    ∃ spec spelling parameters, c.spec? ticks = some spec ∧
      ReadsAs text (some (.addColumn m.table spec spelling), parameters) := by
  obtain ⟨declaration, hdeclaration, h⟩ := ok_of_bind h
  obtain rfl := Except.ok.inj h
  have hhead := (Cut.word_delimited (w := "alter") (by decide) 0).append
    (cut_wordsAt ["table"] _ (by decide)) fun rest h => delimited_cons rfl _
  have htable := hhead.append (Cut.spaced_quoted m.table _) fun rest _ => delimited_cons rfl _
  have hadd := htable.append (cut_wordsAt ["add", "column"] _ (by decide))
    fun rest _ => ends_cons rfl _
  have hspace := hadd.append Cut.space fun rest _ => delimited_cons rfl _
  obtain ⟨ls, spec, hcut, hitem, hspec⟩ := Column.piece_declaration hc hdeclaration
    ("alter table " ++ quoteIdentifier m.table ++ " add column " ++ declaration)
    (0 + Bytes.lengthOf _)
  have hall := hspace.andThen hcut
  have htext : "alter".toList ++ spacedWords ["table"] ++ ' ' :: (quoteIdentifier m.table).toList ++
      spacedWords ["add", "column"] ++ [' '] ++ declaration.toList =
      ("alter table " ++ quoteIdentifier m.table ++ " add column " ++ declaration).toList := by
    simp [spacedWords]
  rw [htext] at hall
  simp only [wordsAt, List.append_assoc, List.cons_append, List.nil_append] at hall
  have hread := hitem.reads [] follows_nil
  rw [List.append_nil] at hread
  obtain ⟨spelling, hspelled⟩ := addColumn_read m.table hread _ _ _ _ _
  exact ⟨spec, spelling, _, hspec, hall.readsAs delimited_nil hspelled⟩

/-- The text that creates a table, around the text of its columns. -/
theorem cut_createTable (table : String) (without : Bool) {items : String}
    {good : List Lexeme → Prop} (hitems : ∀ o, ∃ ls, Cut Delimited o items.toList ls ∧ good ls) :
    ∃ c o i j k t p z w ls, good ls ∧ Cut Delimited 0
      ("create table if not exists " ++ quoteIdentifier table ++ "(" ++ items ++ ")" ++
        if without then " without rowid" else "").toList
      (wordAt "create" c :: wordAt "table" o :: wordAt "if" i :: wordAt "not" j :: wordAt "exists" k ::
        quotedName table t :: ⟨.symbol "(", "(", p⟩ ::
          (ls ++ ⟨.symbol ")", ")", z⟩ :: wordsAt (rowidWords without) w)) := by
  have hparen : ∀ o, Cut Anything o "(".toList [⟨.symbol "(", "(", o⟩] :=
    fun o => .symbol (by decide)
  have hclosing : ∀ o, Cut Anything o ")".toList [⟨.symbol ")", ")", o⟩] :=
    fun o => .symbol (by decide)
  have hwords : ∀ w ∈ rowidWords without, isName w = true := by
    cases without with
    | true => decide
    | false => decide
  have hhead := (Cut.word_delimited (w := "create") (by decide) 0).append
    (cut_wordsAt ["table", "if", "not", "exists"] _ (by decide)) fun rest h => delimited_cons rfl _
  have htable := hhead.append (Cut.spaced_quoted table _) fun rest _ => delimited_cons rfl _
  have hopen := htable.append (hparen _) fun rest _ => ends_cons rfl _
  obtain ⟨ls, hcut, hgood⟩ := hitems (0 + Bytes.lengthOf _)
  have hclosed := (hopen.andThen hcut).append (hclosing _) fun rest _ =>
    delimited_cons rfl _
  have hwhole := hclosed.andThen (cut_wordsAt (rowidWords without) _ hwords)
  have hchars : "create".toList ++ spacedWords ["table", "if", "not", "exists"] ++
      ' ' :: (quoteIdentifier table).toList ++ "(".toList ++ items.toList ++ ")".toList ++
        spacedWords (rowidWords without) =
      ("create table if not exists " ++ quoteIdentifier table ++ "(" ++ items ++ ")" ++
        if without then " without rowid" else "").toList := by
    cases without with
    | true => simp [spacedWords, rowidWords]
    | false => simp [spacedWords, rowidWords]
  rw [hchars] at hwhole
  simp only [wordsAt, List.append_assoc, List.cons_append, List.nil_append] at hwhole
  exact ⟨_, _, _, _, _, _, _, _, _, ls, hgood, hwhole⟩

/-- The text that creates a table is read as what the mapping says. -/
theorem readsAs_createStatement (hc : ∀ c ∈ m.columns, c.Declarable) (hne : m.columns ≠ [])
    (h : m.createStatement ticks = .ok text) : ∃ specs definition offset parameters,
      List.Forall₂ (fun c spec => c.spec? ticks = some spec) m.columns specs ∧
      ReadsAs text (some (.createTable true
        ⟨m.table, definition, offset, specs, [], m.record.withoutRowid⟩), parameters) := by
  obtain ⟨declarations, hdeclarations, h⟩ := ok_of_bind h
  obtain rfl := Except.ok.inj h
  obtain ⟨hall, rfl⟩ := of_mapM hdeclarations
  obtain ⟨c, cs, hcs⟩ := List.exists_cons_of_ne_nil hne
  generalize htext : "create table if not exists " ++ quoteIdentifier m.table ++ "("
    ++ ", ".intercalate (m.columns.map fun c => (c.declaration ticks).toOption.getD default) ++ ")"
    ++ (if m.record.withoutRowid then " without rowid" else "") = text
  rw [hcs] at hall hc htext
  have hitems (o : Nat) : ∃ ls,
      Cut Delimited o (", ".intercalate ((c :: cs).map fun c =>
        (c.declaration ticks).toOption.getD default)).toList ls ∧
      ∃ specs, Separated (columnSpec text) (fun c spec => c.spec? ticks = some spec)
        (c :: cs) specs ls := by
    obtain ⟨specs, ls, hcut, hseparated⟩ := cut_separated .spaced
      (fun c : Column => (c.declaration ticks).toOption.getD default) cs c
      (fun b hb => Column.piece_declaration (hc b hb) (hall b hb) text) o
    exact ⟨ls, hcut, specs, hseparated⟩
  obtain ⟨_, _, _, _, _, _, _, _, _, ls, ⟨specs, hseparated⟩, hwhole⟩ :=
    cut_createTable m.table m.record.withoutRowid hitems
  rw [htext] at hwhole
  obtain ⟨definition, offset, hread⟩ := createTable_read hseparated m.table m.record.withoutRowid
    _ _ _ _ _ _ _ _ _
  rw [hcs]
  exact ⟨specs, definition, offset, _, hseparated.forall₂, hwhole.readsAs delimited_nil hread⟩

theorem noZero_declaration {c : Column} {text : String} (h : c.declaration ticks = .ok text)
    (hz : NoZero text) :
    NoZero c.name := by
  obtain ⟨type, -, htext⟩ := Column.of_declaration h
  rw [NoZero, htext, List.append_assoc, zeroless_append] at hz
  exact noZero_quoteIdentifier.mp hz.1

/-- The statement that creates the table has the names of the table and of all columns. -/
theorem noZero_createStatement (h : m.createStatement ticks = .ok text) (hz : NoZero text) :
    NoZero m.table ∧ ∀ c ∈ m.columns, NoZero c.name := by
  have hcomma : NoZero ", " := by decide
  obtain ⟨declarations, hdeclarations, h⟩ := ok_of_bind h
  cases h
  obtain ⟨hall, rfl⟩ := of_mapM hdeclarations
  simp only [noZero_append, noZero_quoteIdentifier, noZero_intercalate hcomma] at hz
  exact ⟨hz.1.1.1.1.2, fun c hc => noZero_declaration (hall c hc) (hz.1.1.2 _ (List.mem_map_of_mem hc))⟩

end Mapping

end RecordMapper
