import RecordMapper.Proofs.Operands
import RecordMapper.Proofs.Resolving

/-!
# Phrases

Pieces of a condition that are read as scalars wherever they stand.

1. `Cut`: a text that is cut into lexemes whatever follows it, within limits.
2. `Phrase`: a text that is read as an operand, and `Items`: one that is read as a list of scalars
   before a closing parenthesis. Both say which scalars these are once the parameters are bound.
3. One lemma for each way in which conditions are put together.
-/

namespace RecordMapper.Sql

open Lexeme RecordMapper.Sql.Parser RecordMapper.Resolver

/-! ## Cutting -/

/-- The characters after a phrase do not go on with its last lexeme. -/
def Ends (rest : List Char) : Prop := Stops (fun c => c == '"' || c == '\'' || isDigit c) rest

theorem ends_nil : Ends [] := nofun

theorem ends_cons {c : Char} (h : (c == '"' || c == '\'' || isDigit c) = false) (rest : List Char) :
    Ends (c :: rest) := by
  rintro c' ⟨⟩
  exact h

/-- Anything may follow. -/
def Anything (_ : List Char) : Prop := True

/-- What may follow is told by its first character, and something may follow. -/
class Following (E : List Char → Prop) : Prop where
  head : ∀ {c : Char} {r r' : List Char}, E (c :: r) → E (c :: r')
  inhabited : ∃ rest, E rest

theorem Stops.head {p : Char → Bool} {c : Char} {r r' : List Char} (h : Stops p (c :: r)) :
    Stops p (c :: r') := h

instance : Following Ends := ⟨Stops.head, [], ends_nil⟩

instance : Following Anything := ⟨id, [], trivial⟩

/-- A character follows. -/
def Begins (d : Char) (rest : List Char) : Prop := ∃ r, rest = d :: r

instance {d : Char} : Following (Begins d) where
  head := by
    rintro c r r' ⟨_, h⟩
    cases h
    exact ⟨r', rfl⟩
  inhabited := ⟨[d], [], rfl⟩

/-- The places of the parameters. -/
def marks (ls : List Lexeme) : List Nat :=
  (ls.filter fun l => l.token == .parameter "?").map Lexeme.offset

theorem marks_append (as bs : List Lexeme) : marks (as ++ bs) = marks as ++ marks bs := by
  unfold marks
  rw [List.filter_append, List.map_append]

/-- A lexeme that may stand in a condition: no end mark, legal, and no parameter with a name. -/
structure Calm (l : Lexeme) : Prop where
  inner : isSymbol ";" l = false
  legal : l.isIllegal = false
  unnamed : ∀ text, l.token = .parameter text → text = "?"

/-- Up to their first zero character, which is not the first, the characters are lexemes with an
illegal one and no end mark. -/
structure Spoils (o : Nat) (cs : List Char) : Prop where
  start : ∀ c ∈ cs.head?, c.toNat ≠ 0
  illegal : ∃ ls, Scans o (beforeZero cs) ls [] ∧ (∀ l ∈ ls, isSymbol ";" l = false) ∧
    ∃ l ∈ ls, l.isIllegal = true

/-- A text that starts with such characters is not read. -/
theorem Spoils.refused {text : String} {cs rest : List Char} (h : Spoils 0 cs) (hz : ¬Zeroless cs)
    (ht : text.toList = cs ++ rest) : ∃ fault, readStatement text = .error fault := by
  obtain ⟨ls, hscans, hinner, l, hl, hillegal⟩ := h.illegal
  have hcut : beforeZero text.toList = beforeZero cs := by rw [ht, beforeZero_append_of_not hz]
  rw [← hcut] at hscans
  refine readStatement_error (l := l) ?_ hillegal
  rwa [firstStatement_eq hscans.ofText hinner]

/-- Characters that are cut into lexemes before whatever `E` admits. A zero character among them
leaves a quoted name unclosed. -/
structure Cut (E : List Char → Prop) (o : Nat) (cs : List Char) (ls : List Lexeme) : Prop where
  scans : ∀ rest, E rest → Scans o cs ls rest
  within : ∀ l ∈ ls, o ≤ l.offset ∧ l.offset < o + Bytes.lengthOf cs
  ascending : ls.Pairwise fun a b => a.offset < b.offset
  calm : ∀ l ∈ ls, Calm l
  spoils : ¬Zeroless cs → Spoils o cs

namespace Cut

variable {E F : List Char → Prop} {o : Nat} {as bs : List Char} {la lb : List Lexeme}

theorem follows_beforeZero [Following E] [Following F] (h : ∀ rest, F rest → E (bs ++ rest))
    (hstart : ∀ c ∈ bs.head?, c.toNat ≠ 0) (hne : bs ≠ []) : E (beforeZero bs) := by
  obtain ⟨rest, hrest⟩ := Following.inhabited (E := F)
  obtain ⟨c, r, rfl⟩ := List.exists_cons_of_ne_nil hne
  have hzero : beforeZero (c :: r) = c :: beforeZero r :=
    List.takeWhile_cons_of_pos (bne_iff_ne.mpr (hstart c rfl))
  rw [hzero]
  exact Following.head (h rest hrest)

theorem append [Following E] [Following F] (ha : Cut E o as la)
    (hb : Cut F (o + Bytes.lengthOf as) bs lb) (h : ∀ rest, F rest → E (bs ++ rest)) :
    Cut F o (as ++ bs) (la ++ lb) where
  scans rest hrest := (ha.scans _ (h rest hrest)).append (hb.scans rest hrest)
  within l hl := by
    rw [Bytes.lengthOf_append]
    rcases List.mem_append.mp hl with hl | hl
    · have := ha.within l hl
      omega
    · have := hb.within l hl
      omega
  ascending := List.pairwise_append.mpr ⟨ha.ascending, hb.ascending, fun a hal b hbl => by
    have := (ha.within a hal).2
    have := (hb.within b hbl).1
    omega⟩
  calm l hl := (List.mem_append.mp hl).elim (ha.calm l) (hb.calm l)
  spoils hz := by
    by_cases hzero : Zeroless as
    · have hbs : ¬Zeroless bs := fun hbs => hz (zeroless_append.mpr ⟨hzero, hbs⟩)
      have hne : bs ≠ [] := fun h => hbs (h ▸ zeroless_nil)
      obtain ⟨hstart, ls, hscans, hinner, l, hl, hillegal⟩ := hb.spoils hbs
      refine ⟨fun c hc => ?_, la ++ ls, ?_, fun x hx => ?_, l, List.mem_append_right la hl, hillegal⟩
      · cases as with
        | nil => exact hstart c hc
        | cons d r => exact Option.some.inj hc ▸ hzero d List.mem_cons_self
      · rw [beforeZero_append hzero]
        exact (ha.scans _ (by rw [List.append_nil]; exact follows_beforeZero h hstart hne)).append hscans
      · exact (List.mem_append.mp hx).elim (fun hx => (ha.calm x hx).inner) (hinner x)
    · obtain ⟨hstart, hillegal⟩ := ha.spoils hzero
      have hne : as ≠ [] := fun h => hzero (h ▸ zeroless_nil)
      have hcut : beforeZero (as ++ bs) = beforeZero as := beforeZero_append_of_not hzero
      rw [← hcut] at hillegal
      exact ⟨by rwa [List.head?_append_of_ne_nil _ hne], hillegal⟩

theorem andThen [Following F] (ha : Cut Anything o as la)
    (hb : Cut F (o + Bytes.lengthOf as) bs lb) :
    Cut F o (as ++ bs) (la ++ lb) :=
  ha.append hb fun _ _ => trivial

theorem weaken (ha : Cut E o as la) (h : ∀ rest, F rest → E rest) : Cut F o as la :=
  ⟨fun rest hrest => ha.scans rest (h rest hrest), ha.within, ha.ascending, ha.calm, ha.spoils⟩

theorem nil : Cut Anything o [] [] :=
  ⟨fun _ _ => .nil, nofun, .nil, nofun, fun hz => absurd zeroless_nil hz⟩

theorem space : Cut Anything o [' '] [] :=
  ⟨fun _ _ => .space, nofun, .nil, nofun, fun hz => absurd (by decide) hz⟩

theorem single {cs : List Char} {t : Token} {spelling : String} (hne : cs ≠ [])
    (hs : ∀ rest, E rest → Scans o cs [⟨t, spelling, o⟩] rest) (hc : Calm ⟨t, spelling, o⟩)
    (hz : ¬Zeroless cs → Spoils o cs) : Cut E o cs [⟨t, spelling, o⟩] where
  scans := hs
  within l hl := by
    have := Bytes.lengthOf_pos hne
    cases List.mem_singleton.mp hl
    show o ≤ o ∧ o < o + Bytes.lengthOf cs
    omega
  ascending := List.pairwise_singleton _ _
  calm l hl := by
    cases List.mem_singleton.mp hl
    exact hc
  spoils := hz

theorem parameter : Cut Ends o ['?'] [⟨.parameter "?", "?", o⟩] := by
  refine single (by decide) (fun rest hrest => .parameter fun c hc => ?_) ⟨rfl, rfl, ?_⟩ (absurd (by decide))
  · have := hrest c hc
    rw [Bool.or_eq_false_iff] at this
    exact this.2
  · rintro text ⟨⟩
    rfl

theorem quoted (name : String) :
    Cut Ends o (quoteIdentifier name).toList [⟨.name name, quoteIdentifier name, o⟩] := by
  have hquoted : (quoteIdentifier name).toList = '"' :: (Quoted.encode '"' name.toList ++ ['"']) :=
    String.toList_ofList
  refine single ?_ (fun rest hrest => .quoted name fun hc => ?_) ⟨rfl, rfl, nofun⟩ fun hz =>
    ⟨?_, ?_⟩
  · rw [hquoted]
    exact List.cons_ne_nil _ _
  · exact absurd (hrest _ hc) (by decide)
  · rw [hquoted]
    rintro c ⟨⟩
    decide
  · obtain ⟨spelling, hscans⟩ := Scans.unclosed (o := o) (mt noZero_quoteIdentifier.mpr hz)
    refine ⟨_, hscans, fun l hl => ?_, _, List.mem_singleton_self _, rfl⟩
    cases List.mem_singleton.mp hl
    rfl

theorem percent : Cut Ends o "'%'".toList [⟨.string "%", "'%'", o⟩] := by
  refine single (by decide) (fun rest hrest => ?_) ⟨rfl, rfl, nofun⟩ (absurd (by decide))
  exact Scans.string (c := '%') (by decide) fun hc => absurd (hrest _ hc) (by decide)

/-- The characters after a word do not go on with it. -/
def EndsWord (rest : List Char) : Prop := Stops continuesName rest ∧ rest.head? ≠ some '\''

instance : Following EndsWord := ⟨id, [], nofun, nofun⟩

theorem word {w : String} (hw : isName w = true) : Cut EndsWord o w.toList [⟨.word w, w, o⟩] := by
  refine single ?_ (fun rest hrest => .word hw hrest.1 hrest.2) ⟨rfl, rfl, nofun⟩
    (absurd (noZero_of_isName hw))
  obtain ⟨c, cs, hcs, -⟩ := isName_iff.mp hw
  rw [hcs]
  exact List.cons_ne_nil _ _

theorem symbolAt {c : Char} {cs : List Char} {s : String}
    (hc : isSpace c = false ∧ c ≠ '-' ∧ c ≠ '/') (hs : String.ofList (c :: cs) = s)
    (hcalm : isSymbol ";" ⟨.symbol s, s, o⟩ = false) (hz : Zeroless (c :: cs))
    (ht : ∀ rest, E rest → tokenAt c (cs ++ rest) = (.symbol s, rest)) :
    Cut E o (c :: cs) [⟨.symbol s, s, o⟩] := by
  refine single (List.cons_ne_nil _ _) (fun rest hrest => ?_) ⟨hcalm, rfl, nofun⟩ (absurd hz)
  have := Scans.token (o := o) hc.1 (fun h => absurd h hc.2.1) (fun h => absurd h hc.2.2)
    (ht rest hrest)
  rwa [hs] at this

theorem symbol {s : String} (hs : s ∈ ["(", ")", ",", "||", "*"]) :
    Cut Anything o s.toList [⟨.symbol s, s, o⟩] := by
  simp only [List.mem_cons, List.not_mem_nil, or_false] at hs
  rcases hs with rfl | rfl | rfl | rfl | rfl
  · exact symbolAt (c := '(') (by decide) rfl rfl (by decide) fun _ _ => rfl
  · exact symbolAt (c := ')') (by decide) rfl rfl (by decide) fun _ _ => rfl
  · exact symbolAt (c := ',') (by decide) rfl rfl (by decide) fun _ _ => rfl
  · exact symbolAt (c := '|') (by decide) rfl rfl (by decide) fun _ _ => rfl
  · exact symbolAt (c := '*') (by decide) rfl rfl (by decide) fun _ _ => rfl

/-- A blank follows. -/
abbrev Blank : List Char → Prop := Begins ' '

theorem sign {s : String} (hs : s ∈ [">", ">=", "<", "<=", "&", "|", "=", "<>"]) :
    Cut Blank o s.toList [⟨.symbol s, s, o⟩] := by
  simp only [List.mem_cons, List.not_mem_nil, or_false] at hs
  rcases hs with rfl | rfl | rfl | rfl | rfl | rfl | rfl | rfl
  · exact symbolAt (c := '>') (by decide) rfl rfl (by decide) (by rintro _ ⟨r, rfl⟩; rfl)
  · exact symbolAt (c := '>') (by decide) rfl rfl (by decide) (by rintro _ ⟨r, rfl⟩; rfl)
  · exact symbolAt (c := '<') (by decide) rfl rfl (by decide) (by rintro _ ⟨r, rfl⟩; rfl)
  · exact symbolAt (c := '<') (by decide) rfl rfl (by decide) (by rintro _ ⟨r, rfl⟩; rfl)
  · exact symbolAt (c := '&') (by decide) rfl rfl (by decide) (by rintro _ ⟨r, rfl⟩; rfl)
  · exact symbolAt (c := '|') (by decide) rfl rfl (by decide) (by rintro _ ⟨r, rfl⟩; rfl)
  · exact symbolAt (c := '=') (by decide) rfl rfl (by decide) (by rintro _ ⟨r, rfl⟩; rfl)
  · exact symbolAt (c := '<') (by decide) rfl rfl (by decide) (by rintro _ ⟨r, rfl⟩; rfl)

theorem word_blank {w : String} (hw : isName w = true) :
    Cut Blank o w.toList [⟨.word w, w, o⟩] := by
  refine (word hw).weaken ?_
  rintro _ ⟨r, rfl⟩
  exact ⟨by rintro _ ⟨⟩; rfl, fun h => absurd (Option.some.inj h) (by decide)⟩

theorem spaced {s : String} {t : Token} (h : ∀ o, Cut Blank o s.toList [⟨t, s, o⟩]) :
    Cut Anything o (" " ++ s ++ " ").toList [⟨t, s, o + 1⟩] := by
  rw [String.toList_append, String.toList_append]
  have hleft : Cut Blank o (" ".toList ++ s.toList) ([] ++ [⟨t, s, o + 1⟩]) :=
    space.andThen (h (o + 1))
  exact hleft.append space fun rest _ => ⟨rest, rfl⟩

/-! ### Whole texts -/

section Whole

variable {text : String} {ls : List Lexeme} (hend : E [])

include hend

theorem firstStatement_eq (h : Cut E 0 text.toList ls) (hz : NoZero text) :
    firstStatement text = ls :=
  Sql.firstStatement_eq (Scans.whole hz (h.scans [] hend)) fun l hl => (h.calm l hl).inner

/-- A statement that uses up the lexemes of a text is what it is read as. -/
theorem readsAs {l : Lexeme} {s : Statement} (h : Cut E 0 text.toList (l :: ls))
    (hs : statement text (l :: ls) = .ok (s, [])) :
    ReadsAs text (some s, Parameters.ofLexemes (l :: ls)) where
  read hz := readStatement_eq (h.firstStatement_eq hend hz) (fun x hx => (h.calm x hx).legal) hs
  refused hz := (h.spoils hz).refused hz (List.append_nil _).symm

end Whole

end Cut

/-! ## Phrases -/

/-- The parameters at some places are bound to some values. -/
def Bound (parameters : Parameters) (cells : List Cell) : List Nat → List Cell → Prop :=
  List.Forall₂ fun place c => cells[parameters.indexAt place - 1]?.getD .null = c

theorem Bound.append {parameters : Parameters} {cells xs ys : List Cell} {ps qs : List Nat}
    (hlen : ps.length = xs.length) (h : Bound parameters cells (ps ++ qs) (xs ++ ys)) :
    Bound parameters cells ps xs ∧ Bound parameters cells qs ys := by
  induction ps generalizing xs with
  | nil =>
    obtain rfl : xs = [] := List.length_eq_zero_iff.mp hlen.symm
    exact ⟨.nil, h⟩
  | cons p ps ih =>
    cases xs with
    | nil => cases hlen
    | cons x xs =>
      obtain _ | ⟨hp, h⟩ := h
      obtain ⟨hps, hqs⟩ := ih (Nat.succ.inj hlen) h
      exact ⟨.cons hp hps, hqs⟩

mutual

/-- What is read is the second scalar, with bound parameters in the place of some literals and with
the places of the text. -/
inductive Filled (parameters : Parameters) (cells : List Cell) : Scalar → Scalar → Prop
  | literal (c : Cell) : Filled parameters cells (.literal c) (.literal c)
  | parameter {place : Nat} {c : Cell} (h : cells[parameters.indexAt place - 1]?.getD .null = c) :
      Filled parameters cells (.parameter place) (.literal c)
  | column (name : String) (offset : Nat) :
      Filled parameters cells (.column none name true offset) (.column none name true 0)
  | binary (op : Operator) {a b a' b' : Scalar} (left : Filled parameters cells a b)
      (right : Filled parameters cells a' b') :
      Filled parameters cells (.binary op a a') (.binary op b b')
  | like (negated : Bool) {a b a' b' : Scalar} (left : Filled parameters cells a b)
      (pattern : Filled parameters cells a' b') :
      Filled parameters cells (.like negated a a' none) (.like negated b b' none)
  | inList (negated : Bool) {a b : Scalar} (left : Filled parameters cells a b)
      {as bs : List Scalar} (items : FilledEach parameters cells as bs) :
      Filled parameters cells (.inList negated a as) (.inList negated b bs)
  | call (name : String) {as bs : List Scalar} (arguments : FilledEach parameters cells as bs)
      (offset : Nat) :
      Filled parameters cells (.call name false false as offset) (.call name false false bs 0)

inductive FilledEach (parameters : Parameters) (cells : List Cell) :
    List Scalar → List Scalar → Prop
  | nil : FilledEach parameters cells [] []
  | cons {a b : Scalar} {as bs : List Scalar} (head : Filled parameters cells a b)
      (tail : FilledEach parameters cells as bs) :
      FilledEach parameters cells (a :: as) (b :: bs)

end

section Agreement

variable {t t' : Table} {parameters : Parameters} {cells : List Cell}

mutual

/-- Filled with the values of its parameters, what is read resolves over a table to the same as over
another with these columns. -/
theorem Filled.agrees (ht : t.SameColumns t') : {a b : Scalar} → Filled parameters cells a b →
    Agrees t t' parameters cells a b
  | _, _, .literal c => .literal c
  | _, _, .parameter h => .parameter h
  | _, _, .column name offset => .column ht name offset
  | _, _, .binary op left right => (left.agrees ht).binary op (right.agrees ht)
  | _, _, .like negated left pattern => (left.agrees ht).like negated (pattern.agrees ht)
  | _, _, .inList negated left items => (left.agrees ht).inList negated (items.agrees ht)
  | _, _, .call name arguments offset => .call name (arguments.agrees ht) offset

theorem FilledEach.agrees (ht : t.SameColumns t') : {as bs : List Scalar} →
    FilledEach parameters cells as bs → List.Forall₂ (Agrees t t' parameters cells) as bs
  | _, _, .nil => .nil
  | _, _, .cons head tail => .cons (head.agrees ht) (tail.agrees ht)

end

end Agreement

/-- A lexeme that starts a scalar and nothing else. -/
structure Starting (l : Lexeme) : Prop where
  star : isSymbol "*" l = false
  closing : isSymbol ")" l = false
  not : isWord "not" l = false
  distinct : isWord "distinct" l = false

/-- The lexemes of a text that has some values for its parameters. -/
structure Lexed (o : Nat) (text : String) (ls : List Lexeme) (own : List Cell) : Prop where
  cut : Cut Ends o text.toList ls
  starts : ∃ l r, ls = l :: r ∧ Starting l
  marks : (marks ls).length = own.length

theorem Lexed.pos {o : Nat} {text : String} {ls : List Lexeme} {own : List Cell}
    (h : Lexed o text ls own) : 0 < ls.length := by
  obtain ⟨l, r, rfl, -⟩ := h.starts
  exact Nat.succ_pos _

namespace Scalar

mutual

/-- The names of the columns in a scalar of a kind that expressions are read as. -/
def columns : Scalar → List String
  | .column _ name _ _ => [name]
  | .binary _ a b => a.columns ++ b.columns
  | .like _ a pattern _ => a.columns ++ pattern.columns
  | .inList _ a items => a.columns ++ columnsEach items
  | .call _ _ _ arguments _ => columnsEach arguments
  | _ => []

def columnsEach : List Scalar → List String
  | [] => []
  | a :: r => a.columns ++ columnsEach r

end

theorem columnsEach_singleton (a : Scalar) : columnsEach [a] = a.columns := List.append_nil _

end Scalar

/-- A text has a zero character just where one of the names in it has. -/
def Spells (text : String) (names : List String) : Prop := NoZero text ↔ ∀ name ∈ names, NoZero name

namespace Spells

variable {a b : String} {as bs : List String}

theorem plain (h : NoZero a) : Spells a [] := iff_of_true h nofun

theorem append (ha : Spells a as) (hb : Spells b bs) : Spells (a ++ b) (as ++ bs) :=
  noZero_append.trans ((and_congr ha hb).trans List.forall_mem_append.symm)

theorem between (ha : Spells a as) {s : String} (hs : NoZero s) (hb : Spells b bs) :
    Spells (a ++ (s ++ b)) (as ++ bs) :=
  ha.append ((plain hs).append hb)

theorem enclosed (h : Spells a as) : Spells ("(" ++ (a ++ ")")) as :=
  (noZero_append.trans (and_iff_right (by decide))).trans
    ((noZero_append.trans (and_iff_left (by decide))).trans h)

end Spells

/-- A text that is read as an operand, which is `b` once its parameters are bound to `own`. -/
structure Phrase (text : String) (own : List Cell) (b : Scalar) : Prop where
  spells : Spells text b.columns
  reads : ∀ o, ∃ ls a, Lexed o text ls own ∧
    (∀ fuel r, 8 * ls.length ≤ fuel → Closes r → operand fuel (ls ++ r) = .ok (a, r)) ∧
    ∀ parameters cells, Bound parameters cells (marks ls) own → Filled parameters cells a b

/-- A text that is read as scalars with commas between them, before a closing parenthesis. -/
structure Items (text : String) (own : List Cell) (bs : List Scalar) : Prop where
  spells : Spells text (Scalar.columnsEach bs)
  reads : ∀ o, ∃ ls as, Lexed o text ls own ∧ as.length = bs.length ∧
    (∀ fuel closing r, 8 * ls.length + 4 ≤ fuel → isSymbol ")" closing = true →
      scalars fuel (ls ++ closing :: r) = .ok (as, closing :: r)) ∧
    ∀ parameters cells, Bound parameters cells (marks ls) own →
      FilledEach parameters cells as bs

section Parts

variable {text text' : String} {own own' : List Cell} {b b' : Scalar}
  {bs : List Scalar}

namespace Phrase

theorem parameter (c : Cell) : Phrase "?" [c] (.literal c) := by
  refine ⟨.plain (by decide), fun o => ?_⟩
  refine ⟨[⟨.parameter "?", "?", o⟩], .parameter o,
    ⟨.parameter, ⟨_, _, rfl, rfl, rfl, rfl, rfl⟩, rfl⟩, fun fuel r hf _ => ?_,
    fun parameters cells h => ?_⟩
  · obtain ⟨fuel, rfl⟩ : ∃ n, fuel = n + 1 := ⟨fuel - 1, by rw [List.length_singleton] at hf; omega⟩
    exact operand_parameter "?" o
  · obtain _ | ⟨hc, -⟩ := h
    exact .parameter hc

theorem column (name : String) :
    Phrase (quoteIdentifier name) [] (.column none name true 0) := by
  refine ⟨noZero_quoteIdentifier.trans List.forall_mem_singleton.symm, fun o => ?_⟩
  refine ⟨[⟨.name name, quoteIdentifier name, o⟩], .column none name true o,
    ⟨.quoted name, ⟨_, _, rfl, rfl, rfl, rfl, rfl⟩, rfl⟩, fun fuel r hf hr => ?_,
    fun parameters cells _ => .column name o⟩
  obtain ⟨fuel, rfl⟩ : ∃ n, fuel = n + 1 := ⟨fuel - 1, by rw [List.length_singleton] at hf; omega⟩
  exact operand_name name _ o hr

theorem percent : Phrase "'%'" [] (.literal (.text "%")) := by
  refine ⟨.plain (by decide), fun o => ?_⟩
  refine ⟨[⟨.string "%", "'%'", o⟩], .literal (.text "%"),
    ⟨.percent, ⟨_, _, rfl, rfl, rfl, rfl, rfl⟩, rfl⟩, fun fuel r hf _ => ?_,
    fun parameters cells _ => .literal _⟩
  obtain ⟨fuel, rfl⟩ : ∃ n, fuel = n + 1 := ⟨fuel - 1, by rw [List.length_singleton] at hf; omega⟩
  exact operand_string "%" _ o

end Phrase

theorem Items.single (h : Phrase text own b) : Items text own [b] := by
  refine ⟨(Scalar.columnsEach_singleton b).symm ▸ h.spells, fun o => ?_⟩
  obtain ⟨ls, a, hlex, hread, hmeans⟩ := h.reads o
  refine ⟨ls, [a], hlex, rfl, fun fuel closing r hf hc => ?_, fun parameters cells hb =>
    .cons (hmeans parameters cells hb) .nil⟩
  have hhalts : Halts (closing :: r) := halts_cons (halting_symbol hc (Or.inl rfl))
  obtain ⟨fuel, rfl⟩ : ∃ n, fuel = n + 2 := ⟨fuel - 2, by omega⟩
  exact scalars_closed (scalar_halt (hread fuel _ (by omega) hhalts.closes) hhalts) hc

/-! ### Signs -/

/-- A text between two phrases. -/
structure Sign (s : String) (ls : Nat → List Lexeme) : Prop where
  plain : NoZero s
  cut : ∀ o, Cut Anything o s.toList (ls o)
  ends : ∀ rest, Ends (s.toList ++ rest)
  marks : ∀ o, marks (ls o) = []

theorem Lexed.join {o : Nat} {la lb : List Lexeme} {s : String} {f : Nat → List Lexeme}
    (ha : Lexed o text la own) (hs : Sign s f)
    (hb : Lexed (o + Bytes.lengthOf text.toList + Bytes.lengthOf s.toList) text' lb own') :
    Lexed o (text ++ (s ++ text')) (la ++ (f (o + Bytes.lengthOf text.toList) ++ lb))
      (own ++ own') where
  cut := by
    rw [String.toList_append, String.toList_append]
    refine ha.cut.append ((hs.cut _).andThen hb.cut) fun rest _ => ?_
    rw [List.append_assoc]
    exact hs.ends _
  starts := by
    obtain ⟨l, r, rfl, hl⟩ := ha.starts
    exact ⟨l, _, rfl, hl⟩
  marks := by
    rw [marks_append, marks_append, hs.marks, List.nil_append, List.length_append,
      List.length_append, ha.marks, hb.marks]

/-- The values of two phrases with a sign between them. -/
theorem Bound.join {parameters : Parameters} {cells : List Cell} {o o' : Nat} {la lb : List Lexeme}
    {s : String} {f : Nat → List Lexeme} (ha : Lexed o text la own) (hs : Sign s f)
    (h : Bound parameters cells (marks (la ++ (f o' ++ lb))) (own ++ own')) :
    Bound parameters cells (marks la) own ∧ Bound parameters cells (marks lb) own' := by
  rw [marks_append, marks_append, hs.marks, List.nil_append] at h
  exact h.append ha.marks

theorem Sign.comma : Sign "," fun o => [⟨.symbol ",", ",", o⟩] :=
  ⟨by decide, fun _ => .symbol (by decide), fun _ => ends_cons rfl _, fun _ => rfl⟩

theorem Sign.concat : Sign "||" fun o => [⟨.symbol "||", "||", o⟩] :=
  ⟨by decide, fun _ => .symbol (by decide), fun _ => ends_cons rfl _, fun _ => rfl⟩

theorem Sign.spaced {s : String} {t : Token} (h : ∀ o, Cut Cut.Blank o s.toList [⟨t, s, o⟩])
    (ht : t ≠ .parameter "?") (hz : NoZero s) :
    Sign (" " ++ s ++ " ") fun o => [⟨t, s, o + 1⟩] where
  plain := noZero_append.mpr ⟨noZero_append.mpr ⟨by decide, hz⟩, by decide⟩
  cut _ := .spaced h
  ends rest := by
    rw [String.toList_append, String.toList_append, List.append_assoc]
    exact ends_cons rfl _
  marks o := by
    have : (t == .parameter "?") = false := beq_false_of_ne ht
    unfold Sql.marks
    rw [List.filter_cons_of_neg (by rw [this]; decide)]
    rfl

theorem Sign.symbol {s : String} (hs : s ∈ [">", ">=", "<", "<=", "&", "|", "=", "<>"]) :
    Sign (" " ++ s ++ " ") fun o => [⟨.symbol s, s, o + 1⟩] := by
  refine .spaced (fun _ => .sign hs) nofun ?_
  revert s
  decide

theorem Sign.word {w : String} (hw : isName w = true) :
    Sign (" " ++ w ++ " ") fun o => [⟨.word w, w, o + 1⟩] :=
  .spaced (fun _ => .word_blank hw) nofun (noZero_of_isName hw)

/-! ### Putting phrases together -/

theorem Items.cons (ha : Phrase text own b) (hb : Items text' own' bs) :
    Items (text ++ ("," ++ text')) (own ++ own') (b :: bs) := by
  refine ⟨ha.spells.between (by decide) hb.spells, fun o => ?_⟩
  obtain ⟨la, a, hla, hreada, ha⟩ := ha.reads o
  obtain ⟨lb, as, hlb, hlen, hreadb, hb⟩ :=
    hb.reads (o + Bytes.lengthOf text.toList + Bytes.lengthOf ",".toList)
  refine ⟨_, a :: as, hla.join .comma hlb, congrArg Nat.succ hlen, fun fuel closing r hf hc => ?_,
    fun ps cells h => ?_⟩
  · simp only [List.length_append, List.length_singleton] at hf
    obtain ⟨fuel, rfl⟩ : ∃ n, fuel = n + 2 := ⟨fuel - 2, by omega⟩
    have hcomma : isSymbol "," ⟨.symbol ",", ",", o + Bytes.lengthOf text.toList⟩ = true := rfl
    have hhalts := halts_cons (r := lb ++ closing :: r) (halting_symbol hcomma (Or.inr rfl))
    simp only [List.append_assoc, List.cons_append, List.nil_append]
    exact scalars_cons (scalar_halt (hreada fuel _ (by omega) hhalts.closes) hhalts) hcomma
      (hreadb (fuel + 1) closing r (by omega) hc)
  · obtain ⟨h₁, h₂⟩ := Bound.join hla .comma h
    exact .cons (ha ps cells h₁) (hb ps cells h₂)

theorem closes_of_operator {l : Lexeme} {op : Operator} {p : Nat} {r : List Lexeme}
    (h : binaryOperator? l = some (op, p)) : Closes (l :: r) := by
  have hne : ∀ s, s = "(" ∨ s = "." → isSymbol s l = false := by
    intro s hs
    cases hsym : isSymbol s l with
    | false => rfl
    | true =>
      unfold binaryOperator? at h
      rw [token_of_isSymbol hsym] at h
      rcases hs with rfl | rfl <;> cases h
  exact closes_cons ⟨hne _ (Or.inl rfl), hne _ (Or.inr rfl)⟩

theorem Items.between {s : String} {f : Nat → List Lexeme} {op : Operator} {p : Nat}
    (ha : Phrase text own b) (hs : Sign s f)
    (hop : ∀ o, ∃ l, f o = [l] ∧ binaryOperator? l = some (op, p))
    (hb : Phrase text' own' b') :
    Items (text ++ (s ++ text')) (own ++ own') [.binary op b b'] := by
  refine ⟨?_, fun o => ?_⟩
  · rw [Scalar.columnsEach_singleton]
    exact ha.spells.between hs.plain hb.spells
  obtain ⟨la, a, hla, hreada, ha⟩ := ha.reads o
  obtain ⟨lb, a', hlb, hreadb, hb⟩ :=
    hb.reads (o + Bytes.lengthOf text.toList + Bytes.lengthOf s.toList)
  obtain ⟨l, hl, hlop⟩ := hop (o + Bytes.lengthOf text.toList)
  refine ⟨_, [.binary op a a'], hla.join hs hlb, rfl, fun fuel closing r hf hc => ?_,
    fun ps cells h => ?_⟩
  · rw [hl] at hf ⊢
    simp only [List.length_append, List.length_singleton] at hf
    obtain ⟨fuel, rfl⟩ : ∃ n, fuel = n + 4 := ⟨fuel - 4, by omega⟩
    have hhalts := halts_cons (r := r) (halting_symbol hc (Or.inl rfl))
    simp only [List.append_assoc, List.cons_append, List.nil_append]
    refine scalars_closed ?_ hc
    rw [scalar_step (hreada (fuel + 2) _ (by omega) (closes_of_operator hlop)),
      operators_step hlop (Nat.zero_le _)
        (scalar_halt (hreadb fuel _ (by omega) hhalts.closes) hhalts)]
    exact operators_halt hhalts
  · obtain ⟨h₁, h₂⟩ := Bound.join hla hs h
    exact .cons ((ha ps cells h₁).binary op (hb ps cells h₂)) .nil

/-- Two phrases with the words of a form between them, which takes a scalar of power five. -/
theorem Phrase.form {s : String} {f : Nat → List Lexeme} (make : Scalar → Scalar → Scalar)
    (ha : Phrase text own b) (hs : Sign s f)
    (hb : Phrase text' own' b')
    (hclose : ∀ o r, Closes (f o ++ r))
    (hform : ∀ {o fuel : Nat} {a a' : Scalar} {l : Lexeme} {r : List Lexeme} {r' : List Lexeme},
      Starting l → Halts r' → scalar fuel 5 (l :: r) = .ok (a', r') →
        operators (fuel + 2) 0 a (f o ++ l :: r) = operators (fuel + 1) 0 (make a a') r')
    (hmake : ∀ {ps cells a a'}, Filled ps cells a b → Filled ps cells a' b' →
      Filled ps cells (make a a') (make b b'))
    (hcolumns : (make b b').columns = b.columns ++ b'.columns) :
    Items (text ++ (s ++ text')) (own ++ own') [make b b'] := by
  refine ⟨?_, fun o => ?_⟩
  · rw [Scalar.columnsEach_singleton, hcolumns]
    exact ha.spells.between hs.plain hb.spells
  obtain ⟨la, a, hla, hreada, ha⟩ := ha.reads o
  obtain ⟨lb, a', hlb, hreadb, hb⟩ :=
    hb.reads (o + Bytes.lengthOf text.toList + Bytes.lengthOf s.toList)
  refine ⟨_, [make a a'], hla.join hs hlb, rfl, fun fuel closing r hf hc => ?_,
    fun ps cells h => ?_⟩
  · obtain ⟨l, rb, rfl, hl⟩ := hlb.starts
    simp only [List.length_append, List.length_cons] at hf
    have hpos := hla.pos
    obtain ⟨fuel, rfl⟩ : ∃ n, fuel = n + 5 := ⟨fuel - 5, by omega⟩
    have hhalts := halts_cons (r := r) (halting_symbol hc (Or.inl rfl))
    have hscalar : scalar (fuel + 1) 5 (l :: (rb ++ closing :: r)) = .ok (a', closing :: r) :=
      scalar_halt (hreadb fuel _ (by rw [List.length_cons]; omega) hhalts.closes) hhalts
    simp only [List.append_assoc, List.cons_append]
    refine scalars_closed ?_ hc
    rw [scalar_step (hreada (fuel + 3) _ (by omega) (hclose _ _))]
    exact (hform hl hhalts hscalar).trans (operators_halt hhalts)
  · obtain ⟨h₁, h₂⟩ := Bound.join hla hs h
    exact .cons (hmake (ha ps cells h₁) (hb ps cells h₂)) .nil

theorem Items.like (ha : Phrase text own b) (hb : Phrase text' own' b') :
    Items (text ++ (" like " ++ text')) (own ++ own') [.like false b b' none] := by
  refine ha.form (fun a a' => .like false a a' none) (.word (w := "like") (by decide)) hb
    (fun o r => closes_cons ⟨rfl, rfl⟩) (fun _ hr h => ?_) (fun ha hb => ha.like false hb) rfl
  exact operators_trailing rfl rfl rfl (by decide) (trailed_like h hr false)

theorem Items.is (ha : Phrase text own b) (hb : Phrase text' own' b') :
    Items (text ++ (" is " ++ text')) (own ++ own') [.binary .is b b'] := by
  refine ha.form (.binary .is) (.word (w := "is") (by decide)) hb
    (fun o r => closes_cons ⟨rfl, rfl⟩) (fun hl _ h => ?_) (fun ha hb => ha.binary .is hb) rfl
  exact operators_trailing rfl rfl rfl (by decide) (trailed_is hl.not hl.distinct h)

theorem Sign.isNot : Sign " is not " fun o =>
    [⟨.word "is", "is", o + 1⟩, ⟨.word "not", "not", o + 4⟩] where
  plain := by decide
  cut o := by
    have hword : Cut Cut.Blank (o + 1) "is".toList [⟨.word "is", "is", o + 1⟩] :=
      .word_blank (by decide)
    have hnot : Cut Cut.Blank (o + 4) "not".toList [⟨.word "not", "not", o + 4⟩] :=
      .word_blank (by decide)
    have hleft : Cut Cut.Blank o (" ".toList ++ "is".toList) ([] ++ [⟨.word "is", "is", o + 1⟩]) :=
      Cut.space.andThen hword
    have hright : Cut Anything (o + 3) (" ".toList ++ ("not".toList ++ " ".toList))
        ([] ++ ([⟨.word "not", "not", o + 4⟩] ++ [])) :=
      Cut.space.andThen (hnot.append .space fun rest _ => ⟨rest, rfl⟩)
    exact hleft.append hright fun rest _ => ⟨_, rfl⟩
  ends _ := ends_cons rfl _
  marks _ := rfl

theorem Items.isNot (ha : Phrase text own b) (hb : Phrase text' own' b') :
    Items (text ++ (" is not " ++ text')) (own ++ own') [.binary .isNot b b'] := by
  refine ha.form (.binary .isNot) .isNot hb (fun o r => closes_cons ⟨rfl, rfl⟩)
    (fun hl _ h => ?_) (fun ha hb => ha.binary .isNot hb) rfl
  exact operators_trailing rfl rfl rfl (by decide) (trailed_isNot rfl hl.distinct h)

/-- Some lexemes between an opening and a closing parenthesis, which stand at some places. -/
def enclose (o o' : Nat) (ls : List Lexeme) : List Lexeme :=
  ⟨.symbol "(", "(", o⟩ :: (ls ++ [⟨.symbol ")", ")", o'⟩])

theorem enclose_append (o o' : Nat) (ls r : List Lexeme) :
    enclose o o' ls ++ r = ⟨.symbol "(", "(", o⟩ :: (ls ++ ⟨.symbol ")", ")", o'⟩ :: r) := by
  unfold enclose
  rw [List.cons_append, List.append_assoc, List.singleton_append]

theorem length_enclose (o o' : Nat) (ls : List Lexeme) :
    (enclose o o' ls).length = ls.length + 2 := by
  unfold enclose
  rw [List.length_cons, List.length_append, List.length_singleton]

theorem marks_enclose (o o' : Nat) (ls : List Lexeme) : marks (enclose o o' ls) = marks ls := by
  show marks ([⟨.symbol "(", "(", o⟩] ++ (ls ++ [⟨.symbol ")", ")", o'⟩])) = _
  rw [marks_append, marks_append]
  exact List.append_nil _

theorem Cut.enclose {o : Nat} {cs : List Char} {ls : List Lexeme}
    (h : Cut Ends (o + Bytes.lengthOf "(".toList) cs ls) :
    Cut Anything o ("(".toList ++ (cs ++ ")".toList))
      (enclose o (o + Bytes.lengthOf "(".toList + Bytes.lengthOf cs) ls) :=
  (Cut.symbol (s := "(") (by decide)).append
    (h.append (.symbol (s := ")") (by decide)) fun _ _ => ends_cons rfl _) fun _ _ => trivial

theorem Lexed.enclosed {o : Nat} {ls : List Lexeme}
    (h : Lexed (o + Bytes.lengthOf "(".toList) text ls own) :
    Lexed o ("(" ++ (text ++ ")"))
      (enclose o (o + Bytes.lengthOf "(".toList + Bytes.lengthOf text.toList) ls) own where
  cut := by
    rw [String.toList_append, String.toList_append]
    exact h.cut.enclose.weaken fun _ _ => trivial
  starts := ⟨_, _, rfl, rfl, rfl, rfl, rfl⟩
  marks := by
    rw [marks_enclose]
    exact h.marks

theorem Phrase.enclosed (h : Items text own [b]) :
    Phrase ("(" ++ (text ++ ")")) own b := by
  refine ⟨Scalar.columnsEach_singleton b ▸ h.spells.enclosed, fun o => ?_⟩
  obtain ⟨ls, as, hlex, hlen, hread, hmeans⟩ := h.reads (o + Bytes.lengthOf "(".toList)
  obtain ⟨a, rfl⟩ := List.length_eq_one_iff.mp hlen
  refine ⟨_, a, hlex.enclosed, fun fuel r hf _ => ?_, fun ps cells hb => ?_⟩
  · rw [length_enclose] at hf
    obtain ⟨fuel, rfl⟩ : ∃ n, fuel = n + 1 := ⟨fuel - 1, by omega⟩
    rw [enclose_append]
    exact operand_enclosed rfl rfl (hread fuel _ r (by omega) rfl)
  · rw [marks_enclose] at hb
    obtain _ | ⟨ha, -⟩ := hmeans ps cells hb
    exact ha

theorem operator_concat (o : Nat) :
    binaryOperator? ⟨.symbol "||", "||", o⟩ = some (.concat, 10) := rfl

theorem Items.concat {text'' : String} {own'' : List Cell} {b'' : Scalar}
    (ha : Phrase text own b) (hb : Phrase text' own' b')
    (hc : Phrase text'' own'' b'') :
    Items (text ++ ("||" ++ (text' ++ ("||" ++ text'')))) (own ++ (own' ++ own''))
      [.binary .concat (.binary .concat b b') b''] := by
  refine ⟨?_, fun o => ?_⟩
  · have hall := ha.spells.between (s := "||") (by decide) (hb.spells.between (s := "||") (by decide) hc.spells)
    rw [← List.append_assoc] at hall
    rwa [Scalar.columnsEach_singleton]
  obtain ⟨la, a, hla, hreada, ha⟩ := ha.reads o
  obtain ⟨lb, a', hlb, hreadb, hb⟩ :=
    hb.reads (o + Bytes.lengthOf text.toList + Bytes.lengthOf "||".toList)
  obtain ⟨lc, a'', hlc, hreadc, hc⟩ := hc.reads (o + Bytes.lengthOf text.toList +
    Bytes.lengthOf "||".toList + Bytes.lengthOf text'.toList + Bytes.lengthOf "||".toList)
  refine ⟨_, [.binary .concat (.binary .concat a a') a''], hla.join .concat (hlb.join .concat hlc),
    rfl, fun fuel closing r hf hclosing => ?_, fun ps cells h => ?_⟩
  · simp only [List.length_append, List.length_singleton] at hf
    obtain ⟨fuel, rfl⟩ : ∃ n, fuel = n + 5 := ⟨fuel - 5, by omega⟩
    have hhalts := halts_cons (r := r) (halting_symbol hclosing (Or.inl rfl))
    simp only [List.append_assoc, List.cons_append, List.nil_append]
    refine scalars_closed ?_ hclosing
    -- The second sign binds no tighter than the first, so it ends the operand between them.
    rw [scalar_step (hreada (fuel + 3) _ (by omega) (closes_of_operator (operator_concat _))),
      operators_step (operator_concat _) (by decide)
        ((scalar_step (hreadb (fuel + 1) _ (by omega) (closes_of_operator (operator_concat _)))).trans
          (operators_low (operator_concat _) (by decide))),
      operators_step (operator_concat _) (by decide)
        (scalar_halt (hreadc fuel _ (by omega) hhalts.closes) hhalts)]
    exact operators_halt hhalts
  · obtain ⟨h₁, h⟩ := Bound.join hla .concat h
    obtain ⟨h₂, h₃⟩ := Bound.join hlb .concat h
    exact .cons (((ha ps cells h₁).binary .concat (hb ps cells h₂)).binary .concat (hc ps cells h₃))
      .nil

/-! ### Membership -/

theorem Sign.inside : Sign " in " fun o => [⟨.word "in", "in", o + 1⟩] :=
  .word (w := "in") (by decide)

theorem closes_in (o : Nat) (r : List Lexeme) : Closes (⟨.word "in", "in", o⟩ :: r) :=
  closes_cons ⟨rfl, rfl⟩

/-- A membership test: the items stand in parentheses. -/
theorem Items.inside (ha : Phrase text own b) (hb : Items text' own' bs) :
    Items (text ++ (" in " ++ ("(" ++ (text' ++ ")")))) (own ++ own') [.inList false b bs] := by
  refine ⟨?_, fun o => ?_⟩
  · rw [Scalar.columnsEach_singleton]
    exact ha.spells.between (by decide) hb.spells.enclosed
  obtain ⟨la, a, hla, hreada, ha⟩ := ha.reads o
  obtain ⟨lb, as, hlb, hlen, hreadb, hb⟩ := hb.reads (o + Bytes.lengthOf text.toList +
    Bytes.lengthOf " in ".toList + Bytes.lengthOf "(".toList)
  refine ⟨_, [.inList false a as], hla.join .inside hlb.enclosed, rfl, fun fuel closing r hf hc => ?_,
    fun ps cells h => ?_⟩
  · obtain ⟨l, rb, rfl, hl⟩ := hlb.starts
    have hpos := hla.pos
    simp only [List.length_append, List.length_cons, length_enclose, List.length_nil] at hf
    obtain ⟨fuel, rfl⟩ : ∃ n, fuel = n + 6 := ⟨fuel - 6, by omega⟩
    have hhalts := halts_cons (r := r) (halting_symbol hc (Or.inl rfl))
    rw [List.append_assoc, List.append_assoc, enclose_append, List.singleton_append]
    refine scalars_closed ?_ hc
    rw [scalar_step (hreada (fuel + 4) _ (by omega) (closes_in _ _))]
    refine (operators_trailing rfl rfl rfl (by decide) (trailed_inside false rfl hl.closing rfl
      (hreadb (fuel + 2) _ _ (by rw [List.length_cons]; omega) rfl))).trans ?_
    exact operators_halt hhalts
  · obtain ⟨h₁, h₂⟩ := Bound.join hla .inside h
    rw [marks_enclose] at h₂
    exact .cons ((ha ps cells h₁).inList false (hb ps cells h₂)) .nil

theorem Items.inside_nil (ha : Phrase text own b) :
    Items (text ++ (" in " ++ "()")) own [.inList false b []] := by
  refine ⟨?_, fun o => ?_⟩
  · rw [Scalar.columnsEach_singleton]
    exact ha.spells.between (by decide) (.plain (by decide))
  obtain ⟨la, a, hla, hreada, ha⟩ := ha.reads o
  have hnone : Lexed (o + Bytes.lengthOf text.toList + Bytes.lengthOf " in ".toList) "()"
      (enclose (o + Bytes.lengthOf text.toList + Bytes.lengthOf " in ".toList)
        (o + Bytes.lengthOf text.toList + Bytes.lengthOf " in ".toList + 1) []) [] :=
    ⟨(Cut.enclose (Cut.nil.weaken fun _ _ => trivial)).weaken fun _ _ => trivial,
      ⟨_, _, rfl, rfl, rfl, rfl, rfl⟩, rfl⟩
  have hlex := hla.join .inside hnone
  rw [List.append_nil] at hlex
  refine ⟨_, [.inList false a []], hlex, rfl, fun fuel closing r hf hc => ?_, fun ps cells h => ?_⟩
  · have hpos := hla.pos
    simp only [List.length_append, List.length_cons, length_enclose, List.length_nil] at hf
    obtain ⟨fuel, rfl⟩ : ∃ n, fuel = n + 6 := ⟨fuel - 6, by omega⟩
    have hhalts := halts_cons (r := r) (halting_symbol hc (Or.inl rfl))
    rw [List.append_assoc, List.append_assoc, enclose_append, List.singleton_append]
    refine scalars_closed ?_ hc
    rw [scalar_step (hreada (fuel + 4) _ (by omega) (closes_in _ _))]
    exact (operators_trailing rfl rfl rfl (by decide) (trailed_inside_nil false rfl rfl)).trans
      (operators_halt hhalts)
  · rw [← List.append_nil own] at h
    exact .cons ((ha ps cells (Bound.join hla .inside h).1).inList false .nil) .nil

/-! ### Calls -/

/-- A name that is read as that of a function. -/
structure Callable (name : String) : Prop where
  isName : isName name = true
  free : reserved.contains (foldCase name) = false
  not_cast : foldCase name ≠ "cast"

theorem Callable.starting {name : String} (h : Callable name) (o : Nat) :
    Starting ⟨.word name, name, o⟩ where
  star := rfl
  closing := rfl
  not := beq_false_of_ne (ne_of_reserved h.free (by decide))
  distinct := beq_false_of_ne (ne_of_reserved h.free (by decide))

def callOf (name : String) (o o' o'' : Nat) (ls : List Lexeme) : List Lexeme :=
  ⟨.word name, name, o⟩ :: enclose o' o'' ls

theorem Cut.call {name : String} (hn : Callable name) {o : Nat} {cs : List Char} {ls : List Lexeme}
    (h : Cut Ends (o + Bytes.lengthOf name.toList + Bytes.lengthOf "(".toList) cs ls) :
    Cut Anything o (name.toList ++ ("(".toList ++ (cs ++ ")".toList)))
      (callOf name o (o + Bytes.lengthOf name.toList)
        (o + Bytes.lengthOf name.toList + Bytes.lengthOf "(".toList + Bytes.lengthOf cs) ls) :=
  (Cut.word hn.isName).append h.enclose fun _ _ =>
    ⟨by rintro _ ⟨⟩; rfl, fun h => absurd (Option.some.inj h) (by decide)⟩

theorem marks_callOf (name : String) (o o' o'' : Nat) (ls : List Lexeme) :
    marks (callOf name o o' o'' ls) = marks ls := by
  show marks ([⟨.word name, name, o⟩] ++ enclose o' o'' ls) = _
  rw [marks_append, marks_enclose]
  rfl

theorem Lexed.call {name : String} (hn : Callable name) {o : Nat} {ls : List Lexeme}
    (h : Cut Ends (o + Bytes.lengthOf name.toList + Bytes.lengthOf "(".toList) text.toList ls)
    (hm : (Sql.marks ls).length = own.length) :
    Lexed o (name ++ ("(" ++ (text ++ ")"))) (callOf name o (o + Bytes.lengthOf name.toList)
      (o + Bytes.lengthOf name.toList + Bytes.lengthOf "(".toList + Bytes.lengthOf text.toList) ls)
      own where
  cut := by
    rw [String.toList_append, String.toList_append, String.toList_append]
    exact (Cut.call hn h).weaken fun _ _ => trivial
  starts := ⟨_, _, rfl, hn.starting o⟩
  marks := by
    rw [marks_callOf]
    exact hm

theorem callOf_append (name : String) (o o' o'' : Nat) (ls r : List Lexeme) :
    callOf name o o' o'' ls ++ r = ⟨.word name, name, o⟩ :: ⟨.symbol "(", "(", o'⟩ ::
      (ls ++ ⟨.symbol ")", ")", o''⟩ :: r) := by
  unfold callOf
  rw [List.cons_append, enclose_append]

theorem length_callOf (name : String) (o o' o'' : Nat) (ls : List Lexeme) :
    (callOf name o o' o'' ls).length = ls.length + 3 := by
  unfold callOf
  rw [List.length_cons, length_enclose]

theorem Phrase.call {name : String} (hn : Callable name) (h : Items text own bs) :
    Phrase (name ++ ("(" ++ (text ++ ")"))) own (.call name false false bs 0) := by
  refine ⟨(Spells.plain (noZero_of_isName hn.isName)).append h.spells.enclosed, fun o => ?_⟩
  obtain ⟨ls, as, hlex, -, hread, hmeans⟩ :=
    h.reads (o + Bytes.lengthOf name.toList + Bytes.lengthOf "(".toList)
  refine ⟨_, .call name false false as o, Lexed.call hn hlex.cut hlex.marks, fun fuel r hf _ => ?_,
    fun ps cells hb => ?_⟩
  · obtain ⟨l, rb, rfl, hl⟩ := hlex.starts
    rw [length_callOf] at hf
    obtain ⟨fuel, rfl⟩ : ∃ n, fuel = n + 2 := ⟨fuel - 2, by omega⟩
    rw [callOf_append]
    exact operand_call hn.free hn.not_cast rfl
      (arguments_cons name o hl.star hl.closing hl.distinct rfl (hread fuel _ r (by omega) rfl))
  · rw [marks_callOf] at hb
    exact .call name (hmeans ps cells hb) o

theorem Phrase.call_nil {name : String} (hn : Callable name) :
    Phrase (name ++ ("(" ++ ("" ++ ")"))) [] (.call name false false [] 0) := by
  refine ⟨(Spells.plain (noZero_of_isName hn.isName)).append (Spells.plain (by decide)), fun o => ?_⟩
  refine ⟨_, .call name false false [] o, Lexed.call hn (Cut.nil.weaken fun _ _ => trivial) rfl,
    fun fuel r hf _ => ?_, fun ps cells _ => .call name .nil o⟩
  rw [length_callOf] at hf
  obtain ⟨fuel, rfl⟩ : ∃ n, fuel = n + 2 := ⟨fuel - 2, by omega⟩
  rw [callOf_append]
  exact operand_call hn.free hn.not_cast rfl (arguments_nil rfl name o)

end Parts

end RecordMapper.Sql
