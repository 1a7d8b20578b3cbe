import RecordMapper.Proofs.Binding
import RecordMapper.Proofs.Changing
import RecordMapper.Proofs.DefinitionTexts

/-!
# What the text of an insert says

The columns that an insert binds are named in the order of the mapping, and there is one mark for
each of them.

1. `Sql.cut_units`: a list whose items are single lexemes is read item by item.
2. `Mapping.readsAs_insertStatement`: the marks are the values of the named columns, and the
   values that are bound go to the marks from left to right.
3. `Mapping.fits_insertStatement`: there is no other mark in the text.
-/

namespace RecordMapper

namespace Sql

open Lexeme RecordMapper.Sql.Parser

/-! ## Lists of single lexemes -/

section Units

variable {α β : Type} (text : α → String) (lexeme : α → Nat → Lexeme) (item : Parser β)
  (value : α → Nat → β)

/-- Items of one lexeme each with commas between them. The items start at the places `os`. -/
theorem cut_units (hcut : ∀ a o, Cut Ends o (text a).toList [lexeme a o])
    (hitem : ∀ a o r, Follows r → item (lexeme a o :: r) = .ok (value a o, r)) (as : List α) (a : α)
    (o : Nat) : ∃ os ls, os.length = (a :: as).length ∧
      Cut Ends o (",".intercalate ((a :: as).map text)).toList ls ∧
      marks ls = marks (List.zipWith lexeme (a :: as) os) ∧ ls.length + 1 = 2 * os.length ∧
      ∀ p r fuel, os.length ≤ fuel → commaList item fuel (ls ++ ⟨.symbol ")", ")", p⟩ :: r) =
        .ok (List.zipWith value (a :: as) os, ⟨.symbol ")", ")", p⟩ :: r) := by
  induction as generalizing a o with
  | nil =>
    refine ⟨[o], [lexeme a o], rfl, ?_, rfl, rfl, fun p r fuel hf => ?_⟩
    · rw [List.map_singleton, String.intercalate_singleton]
      exact hcut a o
    · obtain ⟨fuel, rfl⟩ : ∃ n, fuel = n + 1 := ⟨fuel - 1, (Nat.sub_add_cancel hf).symm⟩
      refine commaList_single (hitem a o _ (follows_closing p r)) (fun l hl => ?_) fuel
      cases hl
      rfl
  | cons b rest ih =>
    obtain ⟨os, ls, hlen, hls, hmarks, hdouble, hread⟩ :=
      ih b (o + Bytes.lengthOf (text a).toList + Bytes.lengthOf ",".toList)
    have hcomma : marks (⟨.symbol ",", ",", o + Bytes.lengthOf (text a).toList⟩ :: ls) = marks ls :=
      rfl
    refine ⟨o :: os, lexeme a o :: ⟨.symbol ",", ",", o + Bytes.lengthOf (text a).toList⟩ :: ls,
      congrArg (· + 1) hlen, ?_, ?_, ?_, fun p r fuel hf => ?_⟩
    · rw [List.map_cons, List.map_cons, String.intercalate_cons_cons, String.append_assoc,
        String.toList_append, String.toList_append]
      exact (hcut a o).append ((Comma.plain.cut _).andThen hls) fun rest _ =>
        ends_cons rfl _
    · calc marks (lexeme a o :: _ :: ls) = marks [lexeme a o] ++ marks ls := by
            rw [← hcomma]
            exact marks_append [lexeme a o] _
        _ = marks [lexeme a o] ++ marks (List.zipWith lexeme (b :: rest) os) := by rw [hmarks]
        _ = marks (lexeme a o :: List.zipWith lexeme (b :: rest) os) := (marks_append [_] _).symm
    · simp only [List.length_cons]
      omega
    · obtain ⟨fuel, rfl⟩ : ∃ n, fuel = n + 1 := ⟨fuel - 1, by
        rw [List.length_cons] at hf
        omega⟩
      exact commaList_cons (hitem a o _ (follows_comma _ _)) rfl
        (hread p r fuel (Nat.le_of_succ_le_succ hf))

end Units

theorem cut_names (c : String) (cs : List String) (o : Nat) : ∃ ls,
    Cut Ends o (",".intercalate ((c :: cs).map quoteIdentifier)).toList ls ∧ marks ls = [] ∧
    ∀ s p r, names (⟨.symbol "(", "(", s⟩ :: (ls ++ ⟨.symbol ")", ")", p⟩ :: r)) =
      .ok (c :: cs, r) := by
  obtain ⟨os, ls, hlen, hcut, hmarks, hdouble, hread⟩ := cut_units quoteIdentifier quotedName name
    (fun c _ => c) (fun c o => Cut.quoted c) (fun c o r _ => name_quotedName c o r) cs c o
  have hvalues : ∀ (cs : List String) (os : List Nat), os.length = cs.length →
      List.zipWith (fun c _ => c) cs os = cs ∧ marks (List.zipWith quotedName cs os) = [] := by
    intro cs
    induction cs with
    | nil => exact fun _ _ => ⟨rfl, rfl⟩
    | cons c r ih =>
      intro os h
      obtain ⟨o, os, rfl⟩ := List.exists_cons_of_length_eq_add_one h
      obtain ⟨hnames, hmarks⟩ := ih os (Nat.succ.inj h)
      exact ⟨congrArg (c :: ·) hnames, hmarks⟩
  obtain ⟨hnames, hnone⟩ := hvalues (c :: cs) os hlen
  refine ⟨ls, hcut, hmarks.trans hnone, fun s p r => ?_⟩
  unfold names
  rw [bind_apply, symbol_cons rfl, ok_bind, bind_apply]
  unfold withFuel
  rw [hread p r _ (by rw [List.length_append]; omega), ok_bind, bind_apply, symbol_cons rfl, hnames]
  rfl

/-- A mark is read as the parameter at its place. -/
theorem anyScalar_parameter (o : Nat) {r : List Lexeme} (hr : Halts r) :
    anyScalar (⟨.parameter "?", "?", o⟩ :: r) = .ok (.parameter o, r) := by
  obtain ⟨fuel, hf⟩ : ∃ n, 8 * ((⟨.parameter "?", "?", o⟩ :: r : List Lexeme).length + 1) = n + 2 :=
    ⟨8 * ((⟨.parameter "?", "?", o⟩ :: r : List Lexeme).length + 1) - 2, by omega⟩
  show scalar (8 * _) 0 _ = _
  rw [hf]
  exact scalar_halt (operand_parameter "?" o) hr

theorem Follows.halts {r : List Lexeme} (h : Follows r) : Halts r := by
  cases r with
  | nil => exact halts_nil
  | cons l r =>
    rcases h l rfl with hl | hl
    · exact halts_cons (halting_symbol hl (.inr rfl))
    · exact halts_cons (halting_symbol hl (.inl rfl))

theorem cut_placeholders (n o : Nat) : ∃ places ls, places.length = n + 1 ∧
    Cut Ends o (Mapping.placeholders (n + 1)).toList ls ∧ marks ls = places ∧
    ∀ s p r, tuple (⟨.symbol "(", "(", s⟩ :: (ls ++ ⟨.symbol ")", ")", p⟩ :: r)) =
      .ok (places.map Scalar.parameter, r) := by
  obtain ⟨os, ls, hlen, hcut, hmarks, hdouble, hread⟩ := cut_units (fun _ : Unit => "?")
    (fun _ o => ⟨.parameter "?", "?", o⟩) anyScalar (fun _ o => .parameter o)
    (fun _ o => Cut.parameter) (fun _ o r hr => anyScalar_parameter o hr.halts)
    (List.replicate n ()) () o
  rw [← List.replicate_succ] at hlen hcut hmarks hread
  rw [List.length_replicate] at hlen
  rw [List.map_replicate] at hcut
  have hvalues : ∀ (n : Nat) (os : List Nat), os.length = n →
      List.zipWith (fun _ o => Scalar.parameter o) (List.replicate n ()) os =
        os.map Scalar.parameter ∧
      marks (List.zipWith (fun _ o => ⟨.parameter "?", "?", o⟩) (List.replicate n ()) os) = os := by
    intro n
    induction n with
    | zero =>
      intro os h
      rw [List.eq_nil_of_length_eq_zero h]
      exact ⟨rfl, rfl⟩
    | succ n ih =>
      intro os h
      obtain ⟨o, os, rfl⟩ := List.exists_cons_of_length_eq_add_one h
      obtain ⟨hparameters, hplaces⟩ := ih os (Nat.succ.inj h)
      exact ⟨congrArg (Scalar.parameter o :: ·) hparameters, congrArg (o :: ·) hplaces⟩
  obtain ⟨hparameters, hplaces⟩ := hvalues (n + 1) os hlen
  refine ⟨os, ls, hlen, hcut, hmarks.trans hplaces, fun s p r => ?_⟩
  unfold tuple
  rw [bind_apply, symbol_cons rfl, ok_bind, bind_apply]
  unfold withFuel
  rw [hread p r _ (by rw [List.length_append]; omega), ok_bind, bind_apply, symbol_cons rfl, hparameters]
  rfl

end Sql

open Sql Sql.Parser

/-- What the engine does about a row with the same key. -/
def InsertMode.conflict : InsertMode → Conflict
  | .plain => .abort
  | .replace => .replace

/-- The words before the name of the table. -/
def InsertMode.words : InsertMode → List String
  | .plain => ["into"]
  | .replace => ["or", "replace", "into"]

namespace Sql

theorem insertInto_read (text : String) (mode : Conflict) (table : String) {cs : List String}
    {ls qs : List Lexeme} {values : List Scalar} {s q : Nat}
    (hnames : ∀ p r, names (⟨.symbol "(", "(", s⟩ :: (ls ++ ⟨.symbol ")", ")", p⟩ :: r)) = .ok (cs, r))
    (htuple : ∀ p r, tuple (⟨.symbol "(", "(", q⟩ :: (qs ++ ⟨.symbol ")", ")", p⟩ :: r)) = .ok (values, r))
    (i t p v z : Nat) : insertInto text mode (wordAt "into" i :: quotedName table t ::
        ⟨.symbol "(", "(", s⟩ :: (ls ++ ⟨.symbol ")", ")", p⟩ :: wordAt "values" v ::
          ⟨.symbol "(", "(", q⟩ :: (qs ++ [⟨.symbol ")", ")", z⟩]))) =
      .ok (.insert mode table (some cs) (.values [values]), []) := by
  have hinto : isWord "into" (wordAt "into" i) = true := isWord_self (by decide) i
  have hvalues : isWord "values" (wordAt "values" v) = true := isWord_self (by decide) v
  unfold insertInto
  rw [bind_apply, word_cons hinto, ok_bind, bind_apply, name_quotedName, ok_bind,
    bind_apply, ahead_cons, ok_bind]
  rw [show isSymbol "(" ⟨.symbol "(", "(", s⟩ = true from rfl]
  simp only [if_true]
  rw [bind_apply, bind_apply, hnames, ok_bind, pure_apply, ok_bind, choice_cons,
    if_pos hvalues, bind_apply]
  unfold withFuel
  rw [commaList_single (htuple z []) (fun _ h => by cases h), ok_bind, pure_apply]

end Sql

namespace Mapping

variable (m : Mapping)

theorem insertStatement_named {mode : InsertMode} (h : m.boundColumns mode ≠ []) :
    (m.insertStatement mode).toList = "insert".toList ++ spacedWords mode.words ++
      ' ' :: (quoteIdentifier m.table).toList ++ "(".toList ++
      (",".intercalate (((m.boundColumns mode).map Column.name).map quoteIdentifier)).toList ++
      ")".toList ++ spacedWords ["values"] ++ [' '] ++ "(".toList ++
      (placeholders (m.boundColumns mode).length).toList ++ ")".toList := by
  have hempty : (m.boundColumns mode).isEmpty = false := by
    rw [List.isEmpty_eq_false_iff]
    exact h
  unfold insertStatement
  simp only [hempty, Bool.false_and, Bool.false_eq_true, if_false]
  cases mode with
  | plain => simp [InsertMode.words, InsertMode.keyword, spacedWords, Function.comp_def]
  | replace => simp [InsertMode.words, InsertMode.keyword, spacedWords, Function.comp_def]

theorem cut_insertStatement {mode : InsertMode} (h : m.boundColumns mode ≠ []) :
    ∃ places ls qs w t s p v q z, places.length = (m.boundColumns mode).length ∧
      marks ls = [] ∧ marks qs = places ∧
      (∀ s p r, names (⟨.symbol "(", "(", s⟩ :: (ls ++ ⟨.symbol ")", ")", p⟩ :: r)) =
        .ok ((m.boundColumns mode).map Column.name, r)) ∧
      (∀ s p r, tuple (⟨.symbol "(", "(", s⟩ :: (qs ++ ⟨.symbol ")", ")", p⟩ :: r)) =
        .ok (places.map Scalar.parameter, r)) ∧
      Cut Delimited 0 (m.insertStatement mode).toList
        (wordAt "insert" 0 :: (wordsAt mode.words w ++ quotedName m.table t ::
          ⟨.symbol "(", "(", s⟩ :: (ls ++ ⟨.symbol ")", ")", p⟩ :: wordAt "values" v ::
            ⟨.symbol "(", "(", q⟩ :: (qs ++ [⟨.symbol ")", ")", z⟩])))) := by
  have hparen : ∀ o, Cut Anything o "(".toList [⟨.symbol "(", "(", o⟩] :=
    fun o => .symbol (by decide)
  have hclosing : ∀ o, Cut Anything o ")".toList [⟨.symbol ")", ")", o⟩] :=
    fun o => .symbol (by decide)
  have hwords : ∀ w ∈ mode.words, isName w = true := by
    cases mode with
    | plain => decide
    | replace => decide
  obtain ⟨c, cs, hcs⟩ := List.exists_cons_of_ne_nil h
  have hchars := m.insertStatement_named h
  rw [hcs, List.length_cons, List.map_cons] at hchars
  have hhead := (Cut.word_delimited (w := "insert") (by decide) 0).append
    (cut_wordsAt mode.words _ hwords) fun rest h => delimited_spacedWords _ h
  have htable := hhead.append (Cut.spaced_quoted m.table _) fun rest _ => delimited_cons rfl _
  have hopen := htable.append (hparen _) fun rest _ => ends_cons rfl _
  obtain ⟨ls, hls, hnone, hnames⟩ := cut_names c.name (cs.map Column.name) (0 + Bytes.lengthOf _)
  have hnamed := (hopen.andThen hls).append (hclosing _) fun rest _ =>
    ends_cons rfl _
  have hvalues := hnamed.andThen (cut_wordsAt ["values"] _ (by decide))
  have hsecond := (hvalues.append Cut.space fun rest _ => delimited_cons rfl _).andThen (hparen _)
  obtain ⟨places, qs, hlen, hqs, hplaces, htuple⟩ :=
    cut_placeholders cs.length (0 + Bytes.lengthOf _)
  have hall := (hsecond.andThen hqs).append (hclosing _) fun rest _ =>
    ends_cons rfl _
  rw [← hchars] at hall
  simp only [wordsAt, List.append_assoc, List.cons_append, List.nil_append] at hall
  rw [hcs]
  exact ⟨places, ls, qs, _, _, _, _, _, _, _, hlen, hnone, hplaces, hnames, htuple,
    hall.weaken fun _ _ => trivial⟩

/-- The text of an insert is read as what it binds: the parameters stand for the columns in order,
and values that are bound in order go to them. -/
theorem readsAs_insertStatement {mode : InsertMode} (h : m.boundColumns mode ≠ []) :
    ∃ places parameters, ReadsAs (m.insertStatement mode)
        (some (.insert mode.conflict m.table (some ((m.boundColumns mode).map Column.name))
          (.values [places.map .parameter])), parameters) ∧
      places.length = (m.boundColumns mode).length ∧ parameters.count = places.length ∧
      ∀ cells : List Cell, cells.length = places.length → Bound parameters cells places cells := by
  obtain ⟨places, ls, qs, w, t, s, p, v, q, z, hlen, hnone, rfl, hnames, htuple, hcut⟩ :=
    m.cut_insertStatement h
  have hinto := fun i => insertInto_read (m.insertStatement mode) mode.conflict m.table (hnames s)
    (htuple q) i t p v z
  generalize hrest : quotedName m.table t :: ⟨.symbol "(", "(", s⟩ ::
    (ls ++ ⟨.symbol ")", ")", p⟩ ::
    wordAt "values" v :: ⟨.symbol "(", "(", q⟩ :: (qs ++ [⟨.symbol ")", ")", z⟩])) =
      rest at hcut hinto
  have hmarks : marks (wordAt "insert" 0 :: (wordsAt mode.words w ++ rest)) = marks qs := by
    have hplain : marks rest = marks qs := by
      rw [← hrest]
      show marks (ls ++ _) = _
      rw [marks_append, hnone]
      show marks (qs ++ _) = _
      rw [marks_append]
      exact List.append_nil _
    cases mode with
    | plain => exact hplain
    | replace => exact hplain
  have hread : statement (m.insertStatement mode) (wordAt "insert" 0 :: (wordsAt mode.words w ++ rest)) =
      .ok (.insert mode.conflict m.table (some ((m.boundColumns mode).map Column.name))
        (.values [(marks qs).map .parameter]), []) := by
    cases mode with
    | plain =>
      have hor : isWord "or" (wordAt "into" (w + 1)) = false := by
        rw [isWord_wordAt, show foldCase "into" = "into" by decide]
        rfl
      exact (statement_insert (conflict_none hor)).trans (hinto _)
    | replace => exact (statement_insert conflict_replace).trans (hinto _)
  refine ⟨marks qs, _, hcut.readsAs delimited_nil hread, hlen, ?_, fun cells hcells => ?_⟩
  · rw [Parameters.count_ofLexemes hcut.calm, hmarks]
  · have hbound := Parameters.bound_ofLexemes hcut.calm hcut.ascending
      ((congrArg List.length hmarks).trans hcells.symm)
    rwa [hmarks] at hbound

/-! ## Marks -/

theorem fits_placeholders (write : HostValue → String) (values : List HostValue) :
    Marks.Fits write (placeholders values.length) values (",".intercalate (values.map write)) := by
  have hmarks := Marks.Fits.intercalate write (values.map fun v => ("?", [v], write v))
    fun p hp => by
      obtain ⟨v, -, rfl⟩ := List.mem_map.mp hp
      exact .mark v
  simp only [List.map_map, List.flatMap_map, Function.comp_def, List.flatMap_singleton',
    List.map_const']
    at hmarks
  exact hmarks

/-- The text of an insert has no marks but those for its values. -/
theorem fits_insertStatement (mode : InsertMode) (write : HostValue → String)
    {values : List HostValue} (h : values.length = (m.boundColumns mode).length) :
    ∃ out, Marks.Fits write (m.insertStatement mode) values out := by
  have hkeyword : Marks.Fits write (mode.keyword ++ " ") [] (mode.keyword ++ " ") := by
    cases mode with
    | plain => exact .plain (by decide)
    | replace => exact .plain (by decide)
  have hhead := hkeyword.append (.quoted m.table)
  unfold insertStatement
  dsimp only
  split
  · rename_i hdefault
    rw [Bool.and_eq_true, List.isEmpty_iff] at hdefault
    rw [hdefault.1, List.length_nil, List.length_eq_zero_iff] at h
    rw [h]
    exact ⟨_, hhead.append (.plain (by decide))⟩
  · have hnames := Marks.Fits.intercalate write
      ((m.boundColumns mode).map fun c => (quoteIdentifier c.name, [], quoteIdentifier c.name))
      fun p hp => by
        obtain ⟨c, -, rfl⟩ := List.mem_map.mp hp
        exact .quoted c.name
    have hnone : ((m.boundColumns mode).flatMap fun _ => ([] : List HostValue)) = [] :=
      List.flatMap_eq_nil_iff.mpr fun _ _ => rfl
    simp only [List.map_map, List.flatMap_map, Function.comp_def, hnone] at hnames
    have hopen : Marks.Fits write "(" [] "(" := .plain (by decide)
    have hvalues : Marks.Fits write ") values (" [] ") values (" := .plain (by decide)
    have hclosing : Marks.Fits write ")" [] ")" := .plain (by decide)
    have hnamed := ((hhead.append hopen).append hnames).append hvalues
    have hall := (hnamed.append (fits_placeholders write values)).append hclosing
    rw [h] at hall
    simp only [List.nil_append, List.append_nil] at hall
    exact ⟨_, hall⟩

/-- The text of an insert has as many marks as it binds columns. -/
theorem count_insertStatement (mode : InsertMode) :
    Marks.count false (m.insertStatement mode).toList = (m.boundColumns mode).length := by
  obtain ⟨out, hfits⟩ := m.fits_insertStatement mode (fun _ => "")
    (List.length_map fun _ : Column => HostValue.scalar .null)
  have hcount := (hfits [] []).1
  rw [List.append_nil, List.length_map] at hcount
  exact hcount

end Mapping

end RecordMapper
