import RecordMapper.Proofs.InsertTexts
import RecordMapper.Proofs.Lookups

/-!
# What the text of an update says

An update names the columns that it sets, each with a mark for its value, and the key with a
last mark.

1. `Sql.cut_settings`: settings are read one by one.
2. `Sql.readsAs_update`: the text of an update is read as one, and what is bound to its marks are
   the values of the settings before those of the condition.
3. `Mapping.readsAs_updateStatement`: the columns that are set are those of the mapping in order,
   and the condition compares the key with the last value.
-/

namespace RecordMapper

namespace Sql

open Lexeme RecordMapper.Sql.Parser

/-! ## Settings -/

def settingText (c : String) : String := quoteIdentifier c ++ " = ?"

def settingMark (c : String) (o : Nat) : Nat := o + Bytes.lengthOf (quoteIdentifier c).toList + 3

/-- The lexemes of a setting: a column, and a mark for its value. -/
def settingLexemes (c : String) (o : Nat) : List Lexeme :=
  [quotedName c o, ⟨.symbol "=", "=", o + Bytes.lengthOf (quoteIdentifier c).toList + 1⟩,
    ⟨.parameter "?", "?", settingMark c o⟩]

theorem cut_setting (c : String) (o : Nat) :
    Cut Ends o (settingText c).toList (settingLexemes c o) := by
  have hsign : ∀ o, Cut Anything o " = ".toList [⟨.symbol "=", "=", o + 1⟩] := fun o =>
    .spaced (s := "=") fun _ => .sign (by decide)
  have htext : (settingText c).toList = (quoteIdentifier c).toList ++ (" = ".toList ++ ['?']) := by
    unfold settingText
    rw [String.toList_append]
    rfl
  rw [htext]
  exact (Cut.quoted c).append ((hsign _).andThen .parameter) fun _ _ =>
    ends_cons rfl _

theorem setting_read (c : String) (o : Nat) {r : List Lexeme} (hr : Halts r) :
    setting (settingLexemes c o ++ r) = .ok ((c, .parameter (settingMark c o)), r) := by
  have hmark := anyScalar_parameter (settingMark c o) hr
  unfold setting settingLexemes
  rw [List.cons_append, bind_apply, name_quotedName, ok_bind, List.cons_append, bind_apply,
    symbol_cons rfl, ok_bind, List.cons_append, List.nil_append, bind_apply, hmark]
  rfl

/-- Settings for some columns, with parameters at some places. -/
def settingsAt (cs : List String) (places : List Nat) : List (String × Scalar) :=
  List.zipWith (fun c place => (c, .parameter place)) cs places

/-- Settings with commas between them are read one by one, before whatever is no comma and does not
go on with the last of them. -/
theorem cut_settings (c : String) (cs : List String) (o : Nat) : ∃ ls,
    Cut Ends o (", ".intercalate ((c :: cs).map settingText)).toList ls ∧
      (marks ls).length = cs.length + 1 ∧ cs.length < ls.length ∧
      ∀ r fuel, Halts r → (∀ l, r.head? = some l → isSymbol "," l = false) → cs.length < fuel →
        commaList setting fuel (ls ++ r) = .ok (settingsAt (c :: cs) (marks ls), r) := by
  induction cs generalizing c o with
  | nil =>
    refine ⟨settingLexemes c o, ?_, rfl, Nat.succ_pos _, fun r fuel hr hcomma hf => ?_⟩
    · rw [List.map_singleton, String.intercalate_singleton]
      exact cut_setting c o
    · obtain ⟨fuel, rfl⟩ : ∃ n, fuel = n + 1 := ⟨fuel - 1, (Nat.sub_add_cancel hf).symm⟩
      exact commaList_single (setting_read c o hr) hcomma fuel
  | cons c' cs ih =>
    obtain ⟨ls, hls, hmarks, hlong, hread⟩ :=
      ih c' (o + Bytes.lengthOf (settingText c).toList + Bytes.lengthOf ", ".toList)
    have hcomma : Cut Anything (o + Bytes.lengthOf (settingText c).toList) ", ".toList
        ([⟨.symbol ",", ",", o + Bytes.lengthOf (settingText c).toList⟩] ++ []) :=
      (Cut.symbol (s := ",") (by decide)).andThen .space
    have hsymbol : isSymbol "," ⟨.symbol ",", ",", o + Bytes.lengthOf (settingText c).toList⟩ =
        true := rfl
    refine ⟨settingLexemes c o ++ (⟨.symbol ",", ",", o + Bytes.lengthOf (settingText c).toList⟩ :: ls),
      ?_, congrArg (· + 1) hmarks, ?_, fun r fuel hr hno hf => ?_⟩
    · rw [List.map_cons, List.map_cons, String.intercalate_cons_cons, String.append_assoc,
        String.toList_append, String.toList_append]
      exact (cut_setting c o).append (hcomma.andThen hls) fun _ _ =>
        ends_cons rfl _
    · rw [List.length_append, List.length_cons, List.length_cons]
      omega
    · obtain ⟨fuel, rfl⟩ : ∃ n, fuel = n + 1 :=
        ⟨fuel - 1, (Nat.sub_add_cancel (Nat.zero_lt_of_lt hf)).symm⟩
      rw [List.append_assoc, List.cons_append]
      exact commaList_cons (setting_read c o (halts_cons (halting_symbol hsymbol (.inr rfl)))) hsymbol
        (hread r fuel hr hno (Nat.lt_of_succ_lt_succ hf))

/-! ## The text of an update -/

def settingsClause : Parser (List (String × Scalar)) := do
  word "set"
  withFuel (commaList setting)

namespace Part

/-- The values of settings are bound in order. -/
theorem settings {cs : List String} (hcs : cs ≠ []) {own : List Cell}
    (hlen : own.length = cs.length) :
    Part settingsClause (" set " ++ ", ".intercalate (cs.map settingText)) own ["set"]
      ["where", "order", "limit"]
      fun ps cells a => ∃ places, a = settingsAt cs places ∧ Bound ps cells places own := by
  obtain ⟨c, cs, rfl⟩ := List.exists_cons_of_ne_nil hcs
  refine ⟨?_, fun o => ?_⟩
  · rw [String.toList_append]
    exact pause_space _
  obtain ⟨ls, hls, hmarks, hlong, hread⟩ := cut_settings c cs (o + Bytes.lengthOf " set ".toList)
  have hword : Cut Anything o " set ".toList [⟨.word "set", "set", o + 1⟩] :=
    .spaced (s := "set") fun _ => .word_blank (by decide)
  have hcut := hword.andThen (hls.weaken fun _ hr => Pause.ends hr)
  rw [← String.toList_append] at hcut
  refine ⟨_, settingsAt (c :: cs) (marks ls), hcut, hmarks.trans hlen.symm, fun r hr =>
    ⟨before_cons (w := "set") (by decide) _ _, ?_⟩, fun ps cells hb => ⟨_, rfl, hb⟩⟩
  have hcomma : ∀ l, r.head? = some l → isSymbol "," l = false := fun l hl => by
    obtain ⟨w, -, o, rfl⟩ := hr l hl
    rfl
  show (word "set" >>= fun _ => withFuel (commaList setting)) (_ :: (ls ++ r)) = _
  rw [bind_apply, word_cons rfl, ok_bind]
  refine hread r _ (hr.halts (by decide)) hcomma ?_
  rw [List.length_append]
  omega

/-- A part whose result is changed by a function. -/
theorem map {α β : Type} {p : Parser α} {text : String} {own : List Cell}
    {before after : List String} {g : Parameters → List Cell → α → Prop}
    (hp : Part p text own before after g) (f : α → β) :
    Part (do return f (← p)) text own before after fun ps cells b => ∃ a, g ps cells a ∧ b = f a := by
  refine ⟨hp.1, fun o => ?_⟩
  obtain ⟨ls, a, hcut, hmarks, hread, hgood⟩ := hp.2 o
  refine ⟨ls, f a, hcut, hmarks, fun r hr => ⟨(hread r hr).1, ?_⟩, fun ps cells hb =>
    ⟨a, hgood ps cells hb, rfl⟩⟩
  rw [bind_apply, (hread r hr).2]
  rfl

end Part

/-- The settings and the condition of an update. -/
def changes : Parser (List (String × Scalar) × Option Scalar) := do
  let settings ← settingsClause
  return (settings, ← clause "where" anyScalar)

theorem update_read {table : String} {o : Nat} {ls : List Lexeme}
    {settings : List (String × Scalar)} {a : Option Scalar}
    (h : changes ls = .ok ((settings, a), [])) :
    update (quotedName table o :: ls) = .ok (.update .abort table settings a, []) := by
  obtain ⟨_, r, hsettings, h⟩ := of_bind_ok h
  obtain ⟨_, _, hcondition, h⟩ := of_bind_ok h
  cases h
  obtain ⟨_, r', hword, hlist⟩ := of_bind_ok hsettings
  have hor : isWord "or" (quotedName table o) = false := isWord_other fun _ => nofun
  unfold update
  rw [bind_apply, conflict_none hor, ok_bind, bind_apply, name_quotedName, ok_bind, bind_apply,
    hword, ok_bind, bind_apply, hlist, ok_bind, bind_apply, hcondition]
  rfl

/-- The text of an update is read as one, with its settings and its condition. The values of the
settings are bound before those of the condition. -/
theorem readsAs_update (table : String) {cs : List String} (hcs : cs ≠ []) {condition : String}
    {own own' : List Cell} (hlen : own.length = cs.length)
    {good : Parameters → List Cell → Option Scalar → Prop}
    (h : Part (clause "where" anyScalar) condition own' ["where", "order", "limit"] ["order", "limit"]
      good) :
    ∃ places a ps, Bound ps (own ++ own') places own ∧ good ps (own ++ own') a ∧
      ReadsAs ("update " ++ quoteIdentifier table ++
        (" set " ++ ", ".intercalate (cs.map settingText) ++ condition))
          (some (.update .abort table (settingsAt cs places) a), ps) := by
  obtain ⟨hpause, hpart⟩ :=
    (Part.settings hcs hlen).andThen fun settings => h.map (Prod.mk settings)
  have hupdate : Cut Anything 0 "update ".toList ([⟨.word "update", "update", 0⟩] ++ []) :=
    (Cut.word_blank (w := "update") (by decide)).append .space fun rest _ => ⟨rest, rfl⟩
  obtain ⟨la, ⟨settings, a⟩, hcut, hmarks, hread, hgood⟩ := hpart
    (0 + Bytes.lengthOf "update ".toList + Bytes.lengthOf (quoteIdentifier table).toList)
  have hall := hupdate.andThen ((Cut.quoted table).append hcut fun _ hr => (hpause.append hr).ends)
  rw [← String.toList_append, ← String.toList_append, ← String.append_assoc] at hall
  have hsame : marks ([⟨.word "update", "update", 0⟩] ++ [] ++
      ([⟨.name table, quoteIdentifier table, 0 + Bytes.lengthOf "update ".toList⟩] ++ la)) =
        marks la := by
    rw [marks_append, marks_append]
    rfl
  have hbound := Parameters.bound_ofLexemes hall.calm hall.ascending
    ((congrArg List.length hsame).trans hmarks)
  obtain ⟨-, hchanges⟩ := hread [] (before_nil _)
  rw [List.append_nil] at hchanges
  obtain ⟨_, ⟨places, rfl, hplaces⟩, a', hcondition, hpair⟩ := hgood _ _ (hsame ▸ hbound)
  obtain ⟨rfl, rfl⟩ := Prod.mk.inj hpair
  exact ⟨places, _, _, hplaces, hcondition,
    hall.readsAs pause_nil (statement_update.trans (update_read hchanges))⟩

end Sql

open Sql

namespace Mapping

variable (m : Mapping)

theorem updateStatement_eq (key : Column) : m.updateStatement key =
    "update " ++ quoteIdentifier m.table ++ (" set " ++
      ", ".intercalate ((m.updateColumns.map Column.name).map settingText) ++
        (" where " ++ (quoteIdentifier key.name ++ (" = " ++ "?")))) := by
  unfold updateStatement settingText
  simp only [String.append_assoc, List.map_map]
  rfl

/-- The text of an update is read as what it sets and where: the marks of the settings have the
values of the columns in order, and the rows are those whose key is the last value. -/
theorem readsAs_updateStatement {m : Mapping} (h : m.updateColumns ≠ []) (key : Column)
    {values : List Cell} (hlen : values.length = m.updateColumns.length) (x : Cell) :
    ∃ places a ps, Bound ps (values ++ [x]) places values ∧
      Filled ps (values ++ [x]) a (.binary .eq (.column none key.name true 0) (.literal x)) ∧
      ReadsAs (m.updateStatement key) (some (.update .abort m.table
        (settingsAt (m.updateColumns.map Column.name) places) (some a)), ps) := by
  have hcondition := Part.compared (Phrase.column key.name) (Phrase.parameter x)
  rw [List.nil_append] at hcondition
  have hnames : m.updateColumns.map Column.name ≠ [] := fun hn => h (List.map_eq_nil_iff.mp hn)
  obtain ⟨places, _, ps, hplaces, ⟨a, rfl, hfilled⟩, hread⟩ :=
    readsAs_update m.table hnames (hlen.trans (List.length_map _).symm) hcondition
  rw [← updateStatement_eq] at hread
  exact ⟨places, a, ps, hplaces, hfilled, hread⟩

end Mapping

end RecordMapper
