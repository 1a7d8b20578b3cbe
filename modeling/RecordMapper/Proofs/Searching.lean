import RecordMapper.Proofs.Queries
import RecordMapper.Proofs.ReadingBack

/-!
# Searching for texts

A search for an item pastes the item into a pattern, where a per cent sign and an underscore do not
stand for themselves.

1. `Search.likes_literal`: an item without the two matches just where it occurs.
2. `Search.likes_plain`: an item with one of them also matches a text in which it does not occur.
3. `Mapping.Says`: what a predicate comes to on a row: it is compiled, bound, read, resolved and
   evaluated.
4. `Mapping.finds_iff`: when a search is literal.
-/

namespace RecordMapper

open Sql (Scalar)

/-! ## Kinds of searches -/

/-- Where in a text an item is searched for. -/
inductive Search
  | inside
  | atStart
  | atEnd
  deriving DecidableEq, Repr

namespace Search

def expression : Search → Expression → Expression → Expression
  | inside => Expression.contains
  | atStart => Expression.startsWith
  | atEnd => Expression.endsWith

/-- The pattern that an item is pasted into. -/
def pattern : Search → String → String
  | inside, item => "%" ++ item ++ "%"
  | atStart, item => item ++ "%"
  | atEnd, item => "%" ++ item

/-- The item occurs in the text, up to the case of ASCII letters. -/
def Finds : Search → String → String → Prop
  | inside, item, text => (foldCase item).toList <:+: (foldCase text).toList
  | atStart, item, text => (foldCase item).toList <+: (foldCase text).toList
  | atEnd, item, text => (foldCase item).toList <:+ (foldCase text).toList

end Search

/-- The two characters that stand for others in a pattern. -/
def isWildcard (c : Char) : Bool := c == '%' || c == '_'

/-! ## Patterns without an escape -/

namespace Pattern

def partOf (c : Char) : Option Part :=
  if c = '%' then some .any else if c = '_' then some .one else some (.exactly c)

theorem parts_none (cs : List Char) : parts none cs = cs.map partOf := by
  induction cs with
  | nil => rfl
  | cons c r ih =>
    cases r with
    | nil =>
      rw [parts, if_neg nofun]
      unfold partOf
      simp only [List.map_cons, List.map_nil]
      split
      · rfl
      · split <;> rfl
    | cons d r =>
      rw [parts, ih, if_neg nofun]
      rfl

theorem someTail_iff {test : List Char → Bool} {cs : List Char} :
    someTail test cs = true ↔ ∃ before rest, cs = before ++ rest ∧ test rest = true := by
  induction cs with
  | nil =>
    constructor
    · intro h
      exact ⟨[], [], rfl, h⟩
    · rintro ⟨before, rest, h, htest⟩
      obtain ⟨rfl, rfl⟩ := List.append_eq_nil_iff.mp h.symm
      exact htest
  | cons c r ih =>
    rw [someTail, Bool.or_eq_true, ih]
    constructor
    · rintro (h | ⟨before, rest, rfl, h⟩)
      · exact ⟨[], _, rfl, h⟩
      · exact ⟨c :: before, rest, rfl, h⟩
    · rintro ⟨before, rest, h, htest⟩
      cases before with
      | nil => exact .inl (h ▸ htest)
      | cons d before =>
        rw [List.cons_append, List.cons.injEq] at h
        exact .inr ⟨before, rest, h.2, htest⟩

variable {xs cs : List Char} {ps : List (Option Part)}

theorem matchesParts_last : matchesParts [some .any] cs = true :=
  someTail_iff.mpr ⟨cs, [], (List.append_nil cs).symm, rfl⟩

theorem matchesParts_any : matchesParts (some .any :: ps) cs = true ↔
    ∃ before rest, cs = before ++ rest ∧ matchesParts ps rest = true := by
  rw [matchesParts]
  exact someTail_iff

theorem matchesParts_literal (h : ∀ c ∈ xs, isWildcard c = false) :
    matchesParts (xs.map partOf ++ ps) cs = true ↔
      ∃ found rest, cs = found ++ rest ∧ found.map Char.toLower = xs.map Char.toLower ∧
        matchesParts ps rest = true := by
  induction xs generalizing cs with
  | nil =>
    constructor
    · intro hm
      exact ⟨[], cs, rfl, rfl, hm⟩
    · rintro ⟨found, rest, rfl, hfound, hm⟩
      cases List.map_eq_nil_iff.mp hfound
      exact hm
  | cons x xs ih =>
    have hx : partOf x = some (.exactly x) := by
      have := h x List.mem_cons_self
      simp only [isWildcard, Bool.or_eq_false_iff, beq_eq_false_iff_ne] at this
      rw [partOf, if_neg this.1, if_neg this.2]
    have hr : ∀ c ∈ xs, isWildcard c = false := fun c hc => h c (List.mem_cons_of_mem _ hc)
    rw [List.map_cons, List.cons_append, hx]
    cases cs with
    | nil =>
      constructor
      · intro hm
        cases hm
      · rintro ⟨found, rest, hcs, hfound, -⟩
        obtain ⟨rfl, -⟩ := List.append_eq_nil_iff.mp hcs.symm
        cases hfound
    | cons c cs =>
      rw [matchesParts, Bool.and_eq_true, ih hr]
      constructor
      · rintro ⟨hc, found, rest, rfl, hfound, hm⟩
        have hc : x.toLower = c.toLower := beq_iff_eq.mp hc
        exact ⟨c :: found, rest, rfl, by rw [List.map_cons, List.map_cons, hc, hfound], hm⟩
      · rintro ⟨found, rest, hcs, hfound, hm⟩
        cases found with
        | nil => cases hfound
        | cons d found =>
          rw [List.cons_append, List.cons.injEq] at hcs
          obtain ⟨rfl, rfl⟩ := hcs
          rw [List.map_cons, List.map_cons, List.cons.injEq] at hfound
          exact ⟨beq_iff_eq.mpr hfound.1.symm, found, rest, rfl, hfound.2, hm⟩

/-- Letters in the place of the characters that stand for others: nothing for a per cent sign and an
`a` for an underscore. -/
def plain (cs : List Char) : List Char :=
  cs.flatMap fun c => if c = '%' then [] else if c = '_' then ['a'] else [c]

theorem not_wildcard_of_mem_plain {c : Char} (h : c ∈ plain cs) : isWildcard c = false := by
  obtain ⟨d, -, hc⟩ := List.mem_flatMap.mp h
  split at hc
  · cases hc
  · split at hc
    · cases List.mem_singleton.mp hc
      decide
    · rename_i hpercent hunderscore
      cases List.mem_singleton.mp hc
      simp [isWildcard, hpercent, hunderscore]

theorem matchesParts_plain (h : matchesParts ps cs = true) :
    matchesParts (xs.map partOf ++ ps) (plain xs ++ cs) = true := by
  induction xs with
  | nil => exact h
  | cons x xs ih =>
    rw [List.map_cons, List.cons_append]
    by_cases hpercent : x = '%'
    · subst hpercent
      exact matchesParts_any.mpr ⟨[], _, rfl, ih⟩
    · by_cases hunderscore : x = '_'
      · subst hunderscore
        exact ih
      · have hpart : partOf x = some (.exactly x) := by
          rw [partOf, if_neg hpercent, if_neg hunderscore]
        have hplain : plain (x :: xs) = x :: plain xs := by
          unfold plain
          rw [List.flatMap_cons, if_neg hpercent, if_neg hunderscore]
          rfl
        rw [hpart, hplain, List.cons_append, matchesParts, ih, Bool.and_true]
        exact beq_self_eq_true x.toLower

end Pattern

/-! ## Patterns of searches -/

namespace Search

open Pattern

variable {k : Search} {item text : String}

theorem toList_foldCase (s : String) : (foldCase s).toList = s.toList.map Char.toLower :=
  String.toList_ofList

theorem parts_pattern (k : Search) (item : String) : parts none (k.pattern item).toList =
    match k with
    | inside => some .any :: (item.toList.map partOf ++ [some .any])
    | atStart => item.toList.map partOf ++ [some .any]
    | atEnd => some .any :: (item.toList.map partOf ++ []) := by
  rw [parts_none]
  cases k <;> simp [pattern, partOf]

theorem prefix_map_iff {xs cs : List Char} : xs.map Char.toLower <+: cs.map Char.toLower ↔
    ∃ found rest, cs = found ++ rest ∧ found.map Char.toLower = xs.map Char.toLower := by
  constructor
  · rintro ⟨after, h⟩
    obtain ⟨found, rest, rfl, hfound, -⟩ := List.map_eq_append_iff.mp h.symm
    exact ⟨found, rest, rfl, hfound⟩
  · rintro ⟨found, rest, rfl, h⟩
    exact ⟨rest.map Char.toLower, by rw [← h, List.map_append]⟩

theorem suffix_map_iff {xs cs : List Char} : xs.map Char.toLower <:+ cs.map Char.toLower ↔
    ∃ before found, cs = before ++ found ∧ found.map Char.toLower = xs.map Char.toLower := by
  constructor
  · rintro ⟨_, h⟩
    obtain ⟨before, found, rfl, -, hfound⟩ := List.map_eq_append_iff.mp h.symm
    exact ⟨before, found, rfl, hfound⟩
  · rintro ⟨before, found, rfl, h⟩
    exact ⟨before.map Char.toLower, by rw [← h, List.map_append]⟩

theorem infix_map_iff {xs cs : List Char} : xs.map Char.toLower <:+: cs.map Char.toLower ↔
    ∃ before rest, cs = before ++ rest ∧ xs.map Char.toLower <+: rest.map Char.toLower := by
  constructor
  · rintro ⟨s, after, h⟩
    rw [List.append_assoc] at h
    obtain ⟨before, rest, rfl, -, hrest⟩ := List.map_eq_append_iff.mp h.symm
    exact ⟨before, rest, rfl, after, hrest.symm⟩
  · rintro ⟨before, rest, rfl, h⟩
    rw [List.map_append]
    exact h.isInfix.trans (List.suffix_append _ _).isInfix

/-- An item without characters that stand for others matches just where it occurs. -/
theorem likes_literal (h : ∀ c ∈ item.toList, isWildcard c = false) :
    likes (k.pattern item) text none = true ↔ k.Finds item text := by
  have hprefix : ∀ cs, matchesParts (item.toList.map partOf ++ [some .any]) cs = true ↔
      item.toList.map Char.toLower <+: cs.map Char.toLower := by
    intro cs
    rw [matchesParts_literal h, prefix_map_iff]
    exact exists_congr fun found => exists_congr fun rest =>
      and_congr_right fun _ => and_iff_left matchesParts_last
  have hexact : ∀ cs, matchesParts (item.toList.map partOf ++ []) cs = true ↔
      cs.map Char.toLower = item.toList.map Char.toLower := by
    intro cs
    rw [matchesParts_literal h]
    constructor
    · rintro ⟨found, rest, rfl, hfound, hrest⟩
      rwa [List.isEmpty_iff.mp hrest, List.append_nil]
    · intro hcs
      exact ⟨cs, [], (List.append_nil cs).symm, hcs, rfl⟩
  unfold likes Finds
  rw [parts_pattern]
  cases k with
  | inside =>
    simp only [toList_foldCase, infix_map_iff, matchesParts_any, hprefix]
  | atStart =>
    simp only [toList_foldCase, hprefix]
  | atEnd =>
    simp only [toList_foldCase, suffix_map_iff, matchesParts_any, hexact]

/-- Any item matches the text that its characters can stand for. -/
theorem likes_plain : likes (k.pattern item) (String.ofList (plain item.toList)) none = true := by
  unfold likes
  rw [parts_pattern, String.toList_ofList]
  have hend : plain item.toList = plain item.toList ++ [] := (List.append_nil _).symm
  cases k with
  | inside =>
    refine matchesParts_any.mpr ⟨[], plain item.toList ++ [], by rw [← hend]; rfl, ?_⟩
    exact matchesParts_plain matchesParts_last
  | atStart =>
    rw [hend]
    exact matchesParts_plain matchesParts_last
  | atEnd =>
    refine matchesParts_any.mpr ⟨[], plain item.toList ++ [], by rw [← hend]; rfl, ?_⟩
    exact matchesParts_plain rfl

theorem eq_of_toLower {c d : Char} (hc : isWildcard c = true) (h : d.toLower = c.toLower) :
    d = c := by
  have hlow : c.toLower = c ∧ c.toNat < 97 := by
    rcases Bool.or_eq_true_iff.mp hc with h | h
    · rw [beq_iff_eq.mp h]
      decide
    · rw [beq_iff_eq.mp h]
      decide
  rw [hlow.1] at h
  unfold Char.toLower at h
  split at h
  · rename_i hd
    have hA := UInt32.le_iff_toNat_le.mp hd.1
    have hZ := UInt32.le_iff_toNat_le.mp hd.2
    have hval : (d.val + 32).toNat = c.val.toNat := congrArg (fun c : Char => c.val.toNat) h
    have h65 : 'A'.val.toNat = 65 := rfl
    have h90 : 'Z'.val.toNat = 90 := rfl
    have h32 : (32 : UInt32).toNat = 32 := rfl
    have hc97 : c.val.toNat < 97 := hlow.2
    rw [UInt32.toNat_add] at hval
    omega
  · exact h

theorem not_finds_plain (h : ∃ c ∈ item.toList, isWildcard c = true) :
    ¬k.Finds item (String.ofList (plain item.toList)) := by
  obtain ⟨c, hc, hwild⟩ := h
  intro hfinds
  -- Every kind of search finds the item somewhere inside.
  have hpart : item.toList.map Char.toLower <:+: (plain item.toList).map Char.toLower := by
    unfold Finds at hfinds
    rw [← String.toList_ofList (l := plain item.toList), ← toList_foldCase, ← toList_foldCase]
    cases k with
    | inside => exact hfinds
    | atStart => exact hfinds.isInfix
    | atEnd => exact hfinds.isInfix
  obtain ⟨d, hd, hdc⟩ := List.mem_map.mp (hpart.subset (List.mem_map_of_mem hc))
  rw [eq_of_toLower hwild hdc] at hd
  rw [not_wildcard_of_mem_plain hd] at hwild
  cases hwild

end Search
/-! ## Predicates on a row -/

namespace Mapping

/-- A predicate comes to a value on a row: it compiles, its arguments can be stored, its text is
read as one scalar over the columns of the table, and this is evaluated with the arguments in the
places of the parameters. -/
def Says (m : Mapping) (ticks : Bool) (t : Table) (s : Scope) (e : Expression) (r : Row)
    (value : Cell) : Prop :=
  ∃ c arguments cells a ps f, m.compile e [] = .ok (c, arguments) ∧ Stored ticks arguments cells ∧
    Sql.readScalar c.text = .ok (a, ps) ∧ Resolver.formula (.over t ps) a [] = .ok (f, []) ∧
    f.eval (SelectPlan.scopeOf { s with parameters := cells } r) = .ok value

/-- A predicate comes to one value at most. -/
theorem Says.unique {m : Mapping} {ticks : Bool} {t : Table} {s : Scope} {e : Expression} {r : Row}
    {value : Cell} {c : Compiled} {arguments : List HostValue} {cells : List Cell} {a : Scalar}
    {ps : Sql.Parameters} {f : Formula} (h : m.Says ticks t s e r value)
    (hc : m.compile e [] = .ok (c, arguments)) (hs : Stored ticks arguments cells)
    (ha : Sql.readScalar c.text = .ok (a, ps))
    (hf : Resolver.formula (.over t ps) a [] = .ok (f, [])) :
    f.eval (SelectPlan.scopeOf { s with parameters := cells } r) = .ok value := by
  obtain ⟨c', arguments', cells', a', ps', f', hc', hs', ha', hf', heval⟩ := h
  cases hc.symm.trans hc'
  have hcells : cells' = cells :=
    List.right_unique_forall₂' (fun _ _ _ h h' => Except.ok.inj (h.symm.trans h')) hs' hs
  subst hcells
  cases ha.symm.trans ha'
  cases hf.symm.trans hf'
  exact heval

/-- A predicate is true on a row. -/
def Accepts (m : Mapping) (ticks : Bool) (t : Table) (s : Scope) (e : Expression)
    (r : Row) : Prop :=
  ∃ value, m.Says ticks t s e r value ∧ value.truth = some true

end Mapping

/-- A row of the table has a cell in a column that is not the number of the row. -/
def Table.Shows (t : Table) (name : String) (r : Row) (cell : Cell) : Prop :=
  ∃ i, t.columnPlace? name = some i ∧ t.rowidColumn ≠ some i ∧ r.cells[i]? = some cell

theorem Table.Shows.eval {t : Table} {name : String} {r : Row} {cell : Cell}
    (h : t.Shows name r cell) (s : Scope) :
    (t.operandOf name).formula.eval (SelectPlan.scopeOf s r) = .ok cell := by
  obtain ⟨i, hi, hrowid, hcell⟩ := h
  obtain ⟨k, hk⟩ : ∃ k, t.columns[i]? = some k :=
    ⟨_, List.getElem?_eq_getElem (List.findIdx?_eq_some_iff_getElem.mp hi).1⟩
  unfold Table.operandOf Resolver.columnOperand
  rw [hi]
  simp only [hk, if_neg hrowid]
  show Except.ok (r.cells[i]?.getD .null) = _
  rw [hcell]
  rfl

namespace Search

variable {k : Search} {item text : String}

/-- The scalar of a pattern that an operand is pasted into. -/
def paste : Search → Scalar → Scalar
  | inside, b => .binary .concat (.binary .concat Meaning.percent b) Meaning.percent
  | atStart, b => .binary .concat b Meaning.percent
  | atEnd, b => .binary .concat Meaning.percent b

/-- The formula of a pattern that an item is pasted into. -/
def pasted : Search → String → Formula
  | inside, item => .concat (.concat (.constant (.text "%")) (.constant (.text item)))
      (.constant (.text "%"))
  | atStart, item => .concat (.constant (.text item)) (.constant (.text "%"))
  | atEnd, item => .concat (.constant (.text "%")) (.constant (.text item))

theorem eval_pasted (k : Search) (item : String) (s : Scope) :
    (k.pasted item).eval s = .ok (.text (k.pattern item)) := by
  cases k <;> rfl

theorem operand_paste (k : Search) (item : String) (t : Table) (noted : List Aggregate) :
    Resolver.operand (.over t) (k.paste (.literal (.text item))) noted =
      .ok ({ formula := k.pasted item }, noted) := by
  cases k <;> rfl

end Search

namespace Mapping

open Search

variable {m : Mapping} {ticks : Bool} {t : Table} {s : Scope} {r : Row} {name item text : String}
  {c : Column} {k : Search}

/-- The predicate of a search for an item in a property. -/
def searches (k : Search) (name item : String) : Expression :=
  k.expression (.property name) (.constant (.scalar (.text item)))

theorem reads_searches (ticks : Bool) (k : Search) (item : String)
    (hc : m.findProperty name = some c) (ht : c.dataType.isText = true) :
    m.reads (HostValue.cell? ticks) (searches k name item) = some (.form
      (.like false (.column none c.name true 0) (k.paste (.literal (.text item))) none)) := by
  have hcolumn : m.reads (HostValue.cell? ticks) (.property name) =
      some { reading := .operand (.column none c.name true 0), type := some c.dataType } := by
    unfold Expression.property
    rw [reads, hc]
    rfl
  have hitem : m.readsEach (HostValue.cell? ticks) [.constant (.scalar (.text item))] =
      some [Meaning.constant (HostValue.cell? ticks) (.scalar (.text item))] := rfl
  have htext : ({ reading := .operand (.column none c.name true 0), type := some c.dataType } :
      Meaning).isText = true := by
    unfold Meaning.isText
    rw [show (some c.dataType).any DataType.isText = c.dataType.isText from rfl, ht]
    rfl
  cases k with
  | inside =>
    show m.reads _ (.method (.property name) "contains" [_]) = _
    rw [reads, hcolumn, hitem]
    show (if _ then _ else _) = _
    rw [htext, if_pos rfl]
    rfl
  | atStart =>
    show m.reads _ (.method (.property name) "starts_with" [_]) = _
    rw [reads, hcolumn, hitem]
    rfl
  | atEnd =>
    show m.reads _ (.method (.property name) "ends_with" [_]) = _
    rw [reads, hcolumn, hitem]
    rfl

theorem callees_paste (k : Search) (item : String) :
    (k.paste (.literal (.text item))).callees = [] := by
  cases k <;> rfl

theorem columns_paste (k : Search) (item : String) :
    (k.paste (.literal (.text item))).columns = [] := by
  cases k <;> rfl

/-- The predicate of a search is read as a pattern match, with the item for its only parameter,
unless the name of the column has a zero character. -/
theorem searches_read (ticks : Bool) (t : Table) (k : Search) (item : String)
    (hc : m.findProperty name = some c) (ht : c.dataType.isText = true) :
    ∃ d arguments cells a ps f, m.compile (searches k name item) [] = .ok (d, arguments) ∧
      Stored ticks arguments cells ∧ (NoZero c.name → Sql.readScalar d.text = .ok (a, ps)) ∧
      (∀ a ps, Sql.readScalar d.text = .ok (a, ps) → NoZero c.name) ∧
      Resolver.formula (.over t ps) a [] = .ok (f, []) ∧
      ∀ s : Scope, f.eval { s with parameters := cells } =
        (Formula.like false (t.operandOf c.name).formula (k.pasted item) none).eval
          { s with parameters := [] } := by
  obtain ⟨d, arguments, happly, -, -, -, hof⟩ :=
    m.means_compile _ (reads_searches ticks k item hc ht)
  obtain ⟨cells, hgiven, hphrase⟩ := hof.phrase (a := .like false (.column none c.name true 0)
    (k.paste (.literal (.text item))) none) rfl fun n hn => by
    rw [Scalar.callees, callees_paste] at hn
    cases hn
  have hspells : NoZero d.text ↔ NoZero c.name := by
    have hspells := hphrase.spells
    rwa [Sql.Spells, Scalar.columns, Scalar.columns, columns_paste, List.append_nil,
      List.forall_mem_singleton]
      at hspells
  obtain ⟨a, ps, -, hfilled, hread, -⟩ := hphrase.read
  have hoperand : Resolver.operand (.over t)
      (.like false (.column none c.name true 0) (k.paste (.literal (.text item))) none) [] =
        .ok ({ formula := .like false (t.operandOf c.name).formula (k.pasted item) none }, []) := by
    rw [Resolver.operand, Resolver.operand]
    exact (Resolver.bind_ok (congrFun (Resolver.column_quoted rfl rfl c.name 0) [])).trans
      (Resolver.bind_ok (operand_paste k item t []))
  obtain ⟨o, ho, hsame⟩ := (hfilled.agrees (Table.sameColumns_of_bare rfl)).forth hoperand
  exact ⟨d, arguments, cells, a, ps, o.formula, happly [], hgiven.stored, fun hz =>
    hread (hspells.mpr hz),
    fun _ _ ha => hspells.mp (hphrase.noZero ha), Resolver.bind_ok ho, hsame.eval⟩

theorem says_searches_iff (hc : m.findProperty name = some c) (ht : c.dataType.isText = true)
    (hr : t.Shows c.name r (.text text)) {value : Cell} :
    m.Says ticks t s (searches k name item) r value ↔ NoZero c.name ∧
      Formula.matched false (.text text) (.text (k.pattern item)) none = .ok value := by
  obtain ⟨d, arguments, cells, a, ps, f, hcompile, hstored, hread, hz, hf, heval⟩ :=
    searches_read ticks t k item hc ht
  have hmatch : f.eval (SelectPlan.scopeOf { s with parameters := cells } r) =
      Formula.matched false (.text text) (.text (k.pattern item)) none := by
    refine (heval (SelectPlan.scopeOf s r)).trans ?_
    have hfield := hr.eval { s with parameters := [] }
    show (do Formula.matched false (← (t.operandOf c.name).formula.eval
      (SelectPlan.scopeOf { s with parameters := [] } r)) (← (k.pasted item).eval _) none) = _
    rw [hfield, eval_pasted]
    rfl
  rw [← hmatch]
  constructor
  · intro h
    obtain ⟨c', _, _, a', ps', _, hcompile', -, hread', -⟩ := id h
    cases hcompile.symm.trans hcompile'
    exact ⟨hz a' ps' hread', h.unique hcompile hstored (hread (hz a' ps' hread')) hf⟩
  · rintro ⟨hname, h⟩
    exact ⟨d, arguments, cells, a, ps, f, hcompile, hstored, hread hname, hf, h⟩

end Mapping

/-! ## Literal searches -/

theorem NoZero.pattern {item : String} (h : NoZero item) (k : Search) :
    NoZero (k.pattern item) := by
  have hpercent : NoZero "%" := by decide
  cases k <;> simp [Search.pattern, h, hpercent]

theorem NoZero.plain {item : String} (h : NoZero item) :
    NoZero (String.ofList (Pattern.plain item.toList)) := by
  intro ch hch
  rw [String.toList_ofList] at hch
  obtain ⟨d, hd, hmem⟩ := List.mem_flatMap.mp hch
  split at hmem
  · cases hmem
  · split at hmem
    · cases List.mem_singleton.mp hmem
      decide
    · cases List.mem_singleton.mp hmem
      exact h _ hd

theorem Formula.matched_texts {text pattern : String} (ht : NoZero text) (hp : NoZero pattern) :
    matched false (.text text) (.text pattern) none =
      if maxPattern < pattern.utf8ByteSize then .error .patternTooComplex
      else .ok (Cell.ofBool (Pattern.likes pattern text none)) := by
  have hmatched : matched false (.text text) (.text pattern) none =
      if maxPattern < pattern.utf8ByteSize then .error .patternTooComplex
      else .ok (Cell.ofBool (Pattern.likes (untilZero pattern) (untilZero text) none != false)) :=
        rfl
  rw [hmatched, ht.untilZero_eq, hp.untilZero_eq, Bool.bne_false]

theorem Cell.truth_ofBool (b : Bool) : (ofBool b).truth = some b := by
  cases b <;> rfl

def Table.ofText (column text : String) : Table where
  name := ""
  columns := [⟨column, "text", .text, false, .binary, none⟩]
  rowidColumn := none
  autoIncrement := false
  withoutRowid := false
  key := []
  checks := []
  rows := [⟨1, [.text text]⟩]

theorem Table.shows_ofText (column text : String) :
    (ofText column text).Shows column ⟨1, [.text text]⟩ (.text text) := by
  refine ⟨0, ?_, nofun, rfl⟩
  show List.findIdx? (fun c : StoredColumn => sameFolded c.name column) [_] = _
  rw [List.findIdx?_cons, if_pos (sameFolded_refl column)]

namespace Mapping

variable {m : Mapping} {ticks : Bool} {t : Table} {s : Scope} {r : Row} {name item text : String}
  {c : Column} {k : Search}

theorem accepts_searches_iff (ticks : Bool) (s : Scope) (k : Search)
    (hc : m.findProperty name = some c) (ht : c.dataType.isText = true)
    (hr : t.Shows c.name r (.text text)) (hitem : NoZero item) (htext : NoZero text) :
    m.Accepts ticks t s (searches k name item) r ↔ NoZero c.name ∧
      (k.pattern item).utf8ByteSize ≤ Formula.maxPattern ∧
        Pattern.likes (k.pattern item) text none = true := by
  have houtcome : ∀ value, m.Says ticks t s (searches k name item) r value ↔ NoZero c.name ∧
      (if Formula.maxPattern < (k.pattern item).utf8ByteSize then .error .patternTooComplex
        else .ok (Cell.ofBool (Pattern.likes (k.pattern item) text none))) =
          (.ok value : Except EngineFault Cell) := by
    intro value
    rw [says_searches_iff hc ht hr, Formula.matched_texts htext (hitem.pattern k)]
  constructor
  · rintro ⟨value, hvalue, htrue⟩
    obtain ⟨hname, hvalue⟩ := (houtcome _).mp hvalue
    split at hvalue
    · cases hvalue
    · rename_i hfits
      cases hvalue
      rw [Cell.truth_ofBool, Option.some.injEq] at htrue
      exact ⟨hname, Nat.le_of_not_lt hfits, htrue⟩
  · rintro ⟨hname, hfits, hlikes⟩
    refine ⟨_, (houtcome _).mpr ⟨hname, if_neg (Nat.not_lt.mpr hfits)⟩, ?_⟩
    rw [hlikes, Cell.truth_ofBool]

/-- **When a search is literal.** A search of a text column for an item is true on just the rows
whose text contains the item, has it as its start or has it as its end, up to the case of ASCII
letters, if and only if the item has neither a per cent sign nor an underscore, its pattern is not
too long and the name of the column has no zero character. -/
theorem finds_iff (hc : m.findProperty name = some c) (ht : c.dataType.isText = true)
    (hitem : NoZero item) :
    (∀ (t : Table) (s : Scope) (r : Row) (text : String), t.Shows c.name r (.text text) →
        NoZero text →
          (m.Accepts ticks t s (k.expression (.property name) (.constant (.scalar (.text item)))) r ↔
            k.Finds item text)) ↔
      (∀ ch ∈ item.toList, ch ≠ '%' ∧ ch ≠ '_') ∧
        (k.pattern item).utf8ByteSize ≤ Formula.maxPattern ∧ NoZero c.name := by
  have hwild : (∀ ch ∈ item.toList, ch ≠ '%' ∧ ch ≠ '_') ↔
      ∀ ch ∈ item.toList, isWildcard ch = false := by
    simp only [isWildcard, Bool.or_eq_false_iff, beq_eq_false_iff_ne, ne_eq]
  rw [hwild]
  constructor
  · intro h
    obtain ⟨hname, hfits, -⟩ : NoZero c.name ∧ (k.pattern item).utf8ByteSize ≤ Formula.maxPattern ∧
        Pattern.likes (k.pattern item) item none = true := by
      have hself : k.Finds item item := by
        cases k with
        | inside => exact List.infix_refl _
        | atStart => exact List.prefix_refl _
        | atEnd => exact List.suffix_refl _
      have haccepts := (h _ default _ item (Table.shows_ofText c.name item) hitem).mpr hself
      exact (accepts_searches_iff ticks default k hc ht (Table.shows_ofText c.name item) hitem hitem).mp
        haccepts
    refine ⟨fun ch hch => ?_, hfits, hname⟩
    by_contra hne
    have hplain : NoZero (String.ofList (Pattern.plain item.toList)) := hitem.plain
    have hshows := Table.shows_ofText c.name (String.ofList (Pattern.plain item.toList))
    have haccepts := (accepts_searches_iff ticks default k hc ht hshows hitem hplain).mpr
      ⟨hname, hfits, Search.likes_plain⟩
    exact Search.not_finds_plain ⟨ch, hch, (Bool.not_eq_false _).mp hne⟩
      ((h _ default _ _ hshows hplain).mp haccepts)
  · rintro ⟨hplain, hfits, hname⟩ t s r text hr htext
    refine (accepts_searches_iff ticks s k hc ht hr hitem htext).trans ?_
    rw [and_iff_right hname, and_iff_right hfits]
    exact Search.likes_literal hplain

/-- A search of the bodies of notes for a word. -/
theorem finds_iff_notes : Session.notes.findProperty "Body" =
      some ⟨"Body", "Body", ⟨.plain .text, false⟩, true, none, none, false, false, false, [], 1⟩ ∧
    NoZero "ann" ∧
    ∀ (t : Table) (s : Scope) (r : Row) (text : String),
    t.Shows "Body" r (.text text) → NoZero text →
      (Session.notes.Accepts true t s (Search.inside.expression (.property "Body")
        (.constant (.scalar (.text "ann")))) r ↔ Search.inside.Finds "ann" text) := by
  have hcolumn : Session.notes.findProperty "Body" =
      some ⟨"Body", "Body", ⟨.plain .text, false⟩, true, none, none, false, false,
        false, [], 1⟩ := by
    decide +kernel
  have hitem : NoZero "ann" := by decide
  have hplain : ∀ ch ∈ "ann".toList, ch ≠ '%' ∧ ch ≠ '_' := by
    intro ch hch
    have h : (ch != '%' && ch != '_') = true :=
      List.all_eq_true.mp (show "ann".toList.all (fun ch => ch != '%' && ch != '_') = true by decide)
        ch hch
    simpa only [Bool.and_eq_true, bne_iff_ne] using h
  exact ⟨hcolumn, hitem, (finds_iff hcolumn rfl hitem).mpr ⟨hplain, by decide +kernel, by decide⟩⟩

/-- An underscore is found in a text without one. -/
theorem not_always_finds : ¬∀ (k : Search) (item text : String) (r : Row) (s : Scope), NoZero item →
    NoZero text → (Session.noteTable [r]).Shows "Body" r (.text text) →
      (Session.notes.Accepts true (Session.noteTable [r]) s
        (k.expression (.property "Body") (.constant (.scalar (.text item)))) r ↔
        k.Finds item text) := by
  intro h
  have hcolumn : Session.notes.findProperty "Body" =
      some ⟨"Body", "Body", ⟨.plain .text, false⟩, true, none, none, false, false,
        false, [], 1⟩ := by
    decide +kernel
  have hitem : NoZero "_" := by decide
  have htext : NoZero "a" := by decide
  have hshows : (Session.noteTable [⟨1, [.null, .text "a"]⟩]).Shows "Body" ⟨1, [.null, .text "a"]⟩
      (.text "a") := ⟨1, by decide +kernel, by decide, rfl⟩
  have haccepts := (accepts_searches_iff true default .inside hcolumn rfl hshows hitem htext).mpr
    ⟨by decide, by decide +kernel, by decide +kernel⟩
  have hfinds := (h .inside "_" "a" _ default hitem htext hshows).mp haccepts
  exact absurd hfinds (by unfold Search.Finds; decide +kernel)

end Mapping

end RecordMapper
