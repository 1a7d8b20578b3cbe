import RecordMapper.Proofs.Floats
import RecordMapper.Proofs.Queries
import RecordMapper.Proofs.Trees

/-!
# Comparison with null

Equality and inequality with an expression that stands for null are written `is` and `is not`, and
no others are.

1. `Expression.StandsForNull`: null itself, a member of a host object that is null, and conversions
   of these. It is the value that the compiled expression has (`Mapping.value_of_compile`).
2. `Mapping.compile_binary`: the text of an operation. `Mapping.tree_binary`: its tree.
3. `Cell.isNull_comparable`: bringing cells to one class makes none null.
4. `Mapping.says_null`: what a comparison with null says; `Mapping.says_comparison`: what any
   other says.
5. `Mapping.null_comparison`: when equality is `is`, and what it says then and otherwise.
-/

namespace RecordMapper

open Sql (Scalar)

/-! ## Expressions that stand for null -/

namespace Expression

/-- Null, a member of a host object that is null, or a conversion of what stands for null. -/
inductive StandsForNull : Expression → Prop
  | constant : StandsForNull (.constant (.scalar .null))
  | member {object : Expression} {typeName name : String} {members : List (String × HostValue)}
    (ho : object.known? = some (.object typeName members))
    (hm : (HostValue.object typeName members).member? name = some (.scalar .null)) :
    StandsForNull (.member object name)
  | convert {z : Expression} (hz : StandsForNull z) (target : DataType) : StandsForNull
    (.convert z target)

end Expression

namespace Value

theorem isNull_iff {v : Value} : v.isNull = true ↔ v = .null := by
  cases v <;> simp [isNull]

theorem inRange_not_null {i : Int64} {t : DataType} {v : Value} (h : inRange i t = .ok v) :
    v.isNull = false := by
  unfold inRange at h
  split at h
  · cases h
    rfl
  · cases h

theorem toIntegral_not_null {v v' : Value} {t : DataType} (hv : v.isNull = false)
    (h : v.toIntegral t = .ok v') : v'.isNull = false := by
  unfold toIntegral at h
  split at h
  · cases h
    rfl
  · exact inRange_not_null h
  · obtain ⟨i, hi⟩ := Alike.integralOfFloat_inRange h
    exact inRange_not_null hi
  · exact inRange_not_null h
  · cases h
    exact hv

/-- A value that is not null does not become null. -/
theorem coerce_not_null {v v' : Value} {t : DataType} (hv : v.isNull = false)
    (h : v.coerce t = .ok v') :
    v'.isNull = false := by
  unfold coerce at h
  split at h
  · cases hv
  · split at h
    · exact toIntegral_not_null hv h
    · split at h
      -- Two coercions may fail, all others have their value at once.
      all_goals first | (cases h; first | rfl | exact hv) | (obtain ⟨_, rfl⟩ := Alike.of_map_ok h; rfl)

end Value

namespace Expression

theorem standsForNull_iff {z : Expression} : z.StandsForNull ↔ z.known? = some (.scalar .null) := by
  constructor
  · intro h
    induction h with
    | constant => rfl
    | member ho hm => rw [known?, ho, Option.bind_some, hm]
    | convert hz target ih =>
      rw [known?, ih]
      rfl
  · intro h
    induction z using known?.induct with
    | case1 v =>
      cases h
      exact .constant
    | case2 object name ih =>
      rw [known?] at h
      obtain ⟨v, hv, hm⟩ := Option.bind_eq_some_iff.mp h
      cases v with
      | object typeName members => exact .member hv hm
      | _ => cases hm
    | case3 operand target ih =>
      rw [known?] at h
      obtain ⟨v, hv, hc⟩ := Option.bind_eq_some_iff.mp h
      cases v with
      | scalar v =>
        dsimp only at hc
        split at hc
        · cases hc
          exact .convert (ih hv) target
        · rename_i hnull
          obtain ⟨v', hv', hnull'⟩ := Option.map_eq_some_iff.mp hc
          cases hnull'
          have hcoerce : v.coerce target = .ok .null := by
            cases hx : v.coerce target with
            | error fault =>
              rw [hx] at hv'
              cases hv'
            | ok w =>
              rw [hx] at hv'
              exact congrArg Except.ok (Option.some.inj hv')
          cases Value.coerce_not_null (Bool.eq_false_of_not_eq_true hnull) hcoerce
      | _ => cases hc
    | case4 e h₁ h₂ h₃ =>
      rw [known?] at h
      · cases h
      · exact h₁
      · exact h₂
      · exact h₃

end Expression

namespace Mapping

open Compiled Compiling Expression

variable {m : Mapping}

/-! ## Values of compiled expressions -/

/-- A compiled expression has the value that the expression is known to be. -/
theorem value_of_compile (m : Mapping) : (e : Expression) → {args after : List HostValue} →
    {c : Compiled} → m.compile e args = .ok (c, after) → c.value = e.known?
  | .constant v, args, _, _, h => by
    cases (Emits.placeholder_apply v args).symm.trans h
    rfl
  | .member object name, args, _, _, h => by
    by_cases ho : object = .parameter
    · subst ho
      have hproperty : (liftM (m.property name) : Compiling Compiled) args = .ok _ := h
      rw [lift_apply] at hproperty
      unfold Mapping.property at hproperty
      cases hcolumn : m.memberColumn name with
      | error e =>
        rw [hcolumn] at hproperty
        cases hproperty
      | ok k =>
        rw [hcolumn] at hproperty
        cases hproperty
        rfl
    · rw [compile_member ho] at h
      obtain ⟨a, mid, ha, h⟩ := of_bind_ok h
      obtain ⟨typeName, members, v, hvalue, hv, h⟩ := of_hostMember h
      cases (Emits.placeholder_apply v _).symm.trans h
      rw [known?, ← m.value_of_compile object ha, hvalue, Option.bind_some, hv]
  | .binary op left right, args, _, _, h => by
    rw [compile] at h
    cases hs : op.spelling with
    | none =>
      rw [hs] at h
      cases h
    | some spelling =>
      rw [hs] at h
      obtain ⟨a, _, -, h⟩ := of_bind_ok h
      obtain ⟨b, _, -, h⟩ := of_bind_ok h
      cases h
      rfl
  | .call name arguments, args, _, _, h => by
    rcases Framed.call name (m.framed_compileEach arguments) with ⟨e, hx⟩ | ⟨c', own, hc', hx⟩
    · cases h.symm.trans (hx args)
    · cases h.symm.trans (hx args)
      exact hc'
  | .method receiver name arguments, args, _, _, h => by
    rcases (m.framed_compile receiver).method name (m.framed_compileEach arguments) with
      ⟨e, hx⟩ | ⟨c', own, hc', hx⟩
    · cases h.symm.trans (hx args)
    · cases h.symm.trans (hx args)
      exact hc'
  | .convert operand target, _, _, _, h => by
    obtain ⟨a, mid, ha, h⟩ := of_bind_ok h
    exact value_convert (m.value_of_compile operand ha) h
  | .parameter, _, _, _, h | .unary _ _, _, _, _, h | .conditional _ _ _, _, _, _, h => nomatch h

/-- The text of an operation has the texts of its operands around its sign, and their arguments one
after the other. -/
theorem compile_binary {op : BinaryOperator} {spelling : String} (hs : op.spelling = some spelling)
    {e e' : Expression} {c : Compiled} {own : List HostValue}
    (h : m.compile (.binary op e e') [] = .ok (c, own)) :
    ∃ a b left right, m.compile e [] = .ok (a, left) ∧ m.compile e' [] = .ok (b, right) ∧
      c.text = "(" ++ a.text ++ (" " ++ sign op spelling
        (e.known?.any HostValue.isNull || e'.known?.any HostValue.isNull) ++ " ") ++ b.text ++ ")" ∧
      own = left ++ right := by
  rw [compile, hs] at h
  obtain ⟨a, mid, ha, h⟩ := of_bind_ok h
  obtain ⟨b, after, hb, h⟩ := of_bind_ok h
  cases h
  rcases m.framed_compile e' with ⟨f, hx⟩ | ⟨b', right, -, hx⟩
  · cases hb.symm.trans (hx mid)
  · cases hb.symm.trans (hx mid)
    refine ⟨a, b, mid, right, ha, hx [], ?_, rfl⟩
    rw [← m.value_of_compile e ha, ← m.value_of_compile e' hb]
    rfl

/-! ## Trees of expressions that are known -/

variable {φ : HostValue → Cell}

theorem reads_of_known (m : Mapping) (φ : HostValue → Cell) {e : Expression} {v : HostValue}
    (h : e.known? = some v) : ∃ μ, m.reads (total φ) e = some μ ∧ μ.value = some v ∧
      μ.reading = (Meaning.constant (total φ) v).reading := by
  induction e using known?.induct generalizing v with
  | case1 w =>
    cases h
    exact ⟨_, rfl, value_constant _ w, rfl⟩
  | case2 object name ih =>
    obtain ⟨w, hw, hm⟩ := Option.bind_eq_some_iff.mp h
    obtain ⟨μ, hμ, hvalue, -⟩ := ih hw
    have hobject : object ≠ .parameter := by
      rintro rfl
      cases hw
    refine ⟨Meaning.constant (total φ) v, ?_, value_constant _ v, rfl⟩
    rw [reads_member hobject, hμ, Option.bind_some, Meaning.hostMember, hvalue]
    cases w with
    | object typeName members =>
      dsimp only
      rw [hm]
      rfl
    | _ => cases hm
  | case3 operand target ih =>
    obtain ⟨w, hw, hc⟩ := Option.bind_eq_some_iff.mp h
    obtain ⟨μ, hμ, hvalue, hreading⟩ := ih hw
    have hreads : m.reads (total φ) (.convert operand target) = μ.convert (total φ) target := by
      rw [reads, hμ]
      rfl
    rw [hreads, Meaning.convert, hvalue]
    cases w with
    | scalar w =>
      dsimp only at hc ⊢
      split at hc
      · next hnull =>
        cases hc
        rw [if_pos hnull]
        exact ⟨_, rfl, rfl, hreading⟩
      · next hnull =>
        obtain ⟨w', hw', rfl⟩ := Option.map_eq_some_iff.mp hc
        rw [if_neg hnull, hw']
        exact ⟨_, rfl, rfl, rfl⟩
    | _ =>
      cases hc
      exact ⟨_, rfl, rfl, hreading⟩
  | case4 e h₁ h₂ h₃ =>
    rw [known?] at h
    · cases h
    · exact h₁
    · exact h₂
    · exact h₃

theorem namesCallable_of_known {e : Expression} {v : HostValue} (h : e.known? = some v) :
    e.namesCallable = true := by
  induction e using known?.induct generalizing v with
  | case1 w => rfl
  | case2 object name ih =>
    obtain ⟨w, hw, -⟩ := Option.bind_eq_some_iff.mp h
    exact ih hw
  | case3 operand target ih =>
    obtain ⟨w, hw, -⟩ := Option.bind_eq_some_iff.mp h
    exact ih hw
  | case4 e h₁ h₂ h₃ =>
    rw [known?] at h
    · cases h
    · exact h₁
    · exact h₂
    · exact h₃

theorem value_of_reads {e : Expression} {μ : Meaning} (h : m.reads (total φ) e = some μ) :
    μ.value = e.known? := by
  obtain ⟨c, own, hcompile, hvalue, -⟩ := m.means_compile e h
  rw [← hvalue]
  exact m.value_of_compile e (hcompile [])

/-- The tree of an operation. -/
theorem tree_binary {op : BinaryOperator} {e e' : Expression} {a a' : Scalar} {o : Sql.Operator}
    (ha : m.tree? φ e = some a) (ha' : m.tree? φ e' = some a')
    (ho : Meaning.operator op (e.known?.any HostValue.isNull || e'.known?.any HostValue.isNull) = some o) :
    m.tree? φ (.binary op e e') = some (.binary o a a') := by
  obtain ⟨μ, hμ, ha⟩ := Option.bind_eq_some_iff.mp ha
  obtain ⟨μ', hμ', ha'⟩ := Option.bind_eq_some_iff.mp ha'
  rw [← value_of_reads hμ, ← value_of_reads hμ'] at ho
  unfold tree?
  rw [reads, hμ, hμ']
  show (Meaning.operation op μ μ').bind _ = _
  unfold Meaning.operation
  rw [show Meaning.operator op (μ.carriesNull || μ'.carriesNull) = some o from ho, ha, ha']
  rfl

end Mapping

namespace Cell

variable {x y : Cell}

theorem isNull_ofFloat {x : Float} (h : BinaryView.ofFloat x ≠ .nan) :
    (ofFloat x).isNull = false := by
  unfold ofFloat
  split
  · next hnan => exact absurd hnan h
  · rfl

theorem isNull_ofNumeral (n : Numeral) : (ofNumeral n).isNull = false := by
  have hfloat := isNull_ofFloat (BinaryView.toFloat_ne_nan n)
  unfold ofNumeral
  split
  · split
    · rfl
    · exact hfloat
  · exact hfloat

theorem isNull_numericText (x : Cell) : (numericText x).isNull = x.isNull := by
  cases x with
  | text s =>
    show ((wholeNumber? s).getD (text s)).isNull = false
    unfold wholeNumber?
    split
    · split
      · exact isNull_ofNumeral _
      · rfl
    · rfl
  | _ => rfl

/-- Cells that are brought to one class are null where they were. -/
theorem isNull_comparable (a : Option Affinity) (x y : Cell) :
    (comparable a x y).1.isNull = x.isNull ∧ (comparable a x y).2.isNull = y.isNull := by
  unfold comparable
  split
  · cases x <;> cases y <;> exact ⟨rfl, rfl⟩
  · split
    · exact ⟨isNull_numericText x, isNull_numericText y⟩
    · exact ⟨rfl, rfl⟩
  · exact ⟨rfl, rfl⟩

theorem same_comparable_right (a : Option Affinity) (c : Collation) (x : Cell) :
    same c (comparable a x .null).1 (comparable a x .null).2 = x.isNull := by
  obtain ⟨hx, hnull⟩ := isNull_comparable a x .null
  rw [isNull_iff.mp hnull, same_null_right, hx]

theorem same_comparable_left (a : Option Affinity) (c : Collation) (x : Cell) :
    same c (comparable a .null x).1 (comparable a .null x).2 = x.isNull := by
  obtain ⟨hnull, hx⟩ := isNull_comparable a .null x
  rw [isNull_iff.mp hnull, same_null_left, hx]

end Cell

namespace Formula

variable {f : Formula} {k : Matching} {s : Scope} {negated : Bool}

theorem eval_is_null_right : (Formula.is negated k f (.constant .null)).eval s =
    (f.eval s).map fun v => Cell.ofBool (v.isNull != negated) := by
  rw [eval]
  cases f.eval s with
  | error fault => rfl
  | ok v => exact congrArg (fun b => Except.ok (Cell.ofBool (b != negated)))
              (Cell.same_comparable_right ..)

theorem eval_is_null_left : (Formula.is negated k (.constant .null) f).eval s =
    (f.eval s).map fun v => Cell.ofBool (v.isNull != negated) := by
  rw [eval]
  cases f.eval s with
  | error fault => rfl
  | ok v => exact congrArg (fun b => Except.ok (Cell.ofBool (b != negated)))
              (Cell.same_comparable_left ..)

end Formula

/-! ## What comparisons say -/

namespace Mapping

open Expression

variable {m : Mapping} {φ : HostValue → Cell} {ticks : Bool} {t : Table} {s : Scope}
  {e e' z : Expression} {r : Row} {w : Cell}

theorem tree_null (hz : z.StandsForNull) : m.tree? φ z = some (.literal (φ (.scalar .null))) := by
  obtain ⟨μ, hμ, -, hreading⟩ := m.reads_of_known φ (standsForNull_iff.mp hz)
  rw [tree?, hμ, Option.bind_some, hreading]
  rfl

theorem binds_null (hz : z.StandsForNull) : m.Binds ticks z := by
  have hknown := standsForNull_iff.mp hz
  obtain ⟨μ, hμ, hvalue, -⟩ := m.reads_of_known (boundAs ticks) hknown
  obtain ⟨c, own, hcompile, hc, -, hown, -⟩ := m.means_compile z hμ
  obtain ⟨rfl, htext⟩ := hown _ (hc.trans hvalue)
  refine ⟨c, _, hcompile [], ?_, fun v hv => ?_⟩
  · rw [htext]
    decide
  cases List.mem_singleton.mp hv
  rfl

theorem any_isNull_iff {v? : Option HostValue} :
    v?.any HostValue.isNull = true ↔ v? = some (.scalar .null) := by
  cases v? with
  | none => simp
  | some v =>
    cases v with
    | scalar v => simp [HostValue.isNull, Value.isNull_iff]
    | _ => simp [HostValue.isNull]

theorem any_isNull_eq_false (hz : ¬e.StandsForNull) (hz' : ¬e'.StandsForNull) :
    (e.known?.any HostValue.isNull || e'.known?.any HostValue.isNull) = false := by
  rw [Bool.or_eq_false_iff, Bool.eq_false_iff, Bool.eq_false_iff, Ne, Ne, any_isNull_iff,
    any_isNull_iff]
  exact ⟨mt standsForNull_iff.mpr hz, mt standsForNull_iff.mpr hz'⟩

theorem map_eq_ok_iff {α β γ : Type} {f : α → β} {x : Except γ α} {b : β} :
    x.map f = .ok b ↔ ∃ a, x = .ok a ∧ b = f a := by
  cases x with
  | error fault => exact iff_of_false nofun nofun
  | ok a =>
    constructor
    · intro h
      exact ⟨a, rfl, (Except.ok.inj h).symm⟩
    · rintro ⟨_, ha, rfl⟩
      cases ha
      rfl

theorem says_iff_of_gives {d : Expression} {a b : Scalar} {f : Cell → Cell}
    (hn : e.namesCallable = true) (ha : m.tree? (boundAs ticks) e = some a)
    (hd : d.namesCallable = true) (hb : m.tree? (boundAs ticks) d = some b)
    (hbinds : m.Binds ticks d ↔ m.Binds ticks e)
    (hgives : b.Gives t s r w ↔ ∃ v, a.Gives t s r v ∧ w = f v) :
    m.Says ticks t s d r w ↔ ∃ v, m.Says ticks t s e r v ∧ w = f v := by
  rw [says_iff_tree hd hb, hbinds, hgives]
  constructor
  · rintro ⟨hbound, v, hv, hw⟩
    exact ⟨v, (says_iff_tree hn ha).mpr ⟨hbound, hv⟩, hw⟩
  · rintro ⟨v, hv, hw⟩
    obtain ⟨hbound, hv⟩ := (says_iff_tree hn ha).mp hv
    exact ⟨hbound, v, hv, hw⟩

section Null

variable {op : BinaryOperator} {spelling : String} (negated : Bool)
  (hs : op.spelling = some spelling)
  (hop : Meaning.operator op true = some (if negated then .isNot else .is))
  (he : m.IsScalar e) (hn : e.namesCallable = true) (hz : z.StandsForNull)
include hs hop he hn hz

/-- A comparison with null, on either side, says whether the other side is null. -/
theorem says_null {d : Expression} (hd : d = .binary op e z ∨ d = .binary op z e) :
    m.Says ticks t s d r w ↔ ∃ v, m.Says ticks t s e r v ∧
    w = Cell.ofBool (v.isNull != negated) := by
  obtain ⟨a, ha⟩ := he (boundAs ticks)
  have hknown := standsForNull_iff.mp hz
  have hnz := namesCallable_of_known hknown
  -- On its side the other operand alone decides what the comparison computes.
  obtain ⟨b, compared, hb, hbinds, hgives, heval⟩ : ∃ (b : Scalar) (compared : Operand → Operand),
      m.tree? (boundAs ticks) d = some b ∧
      (m.Binds ticks d ↔ m.Binds ticks e) ∧
      (b.Gives t s r w ↔ ∃ o, (∀ noted, Resolver.operand (.over t) a noted = .ok (o, noted)) ∧
        (compared o).formula.eval (SelectPlan.scopeOf { s with parameters := [] } r) = .ok w) ∧
      ∀ o, (compared o).formula.eval (SelectPlan.scopeOf { s with parameters := [] } r) =
        (o.formula.eval (SelectPlan.scopeOf { s with parameters := [] } r)).map fun v =>
          Cell.ofBool (v.isNull != negated) := by
    rcases hd with rfl | rfl
    · refine ⟨_, (Resolver.binary (if negated then .isNot else .is) · { formula := .constant .null }),
        tree_binary ha (tree_null hz) (by rw [any_isNull_iff.mpr hknown, Bool.or_true]; exact hop),
        (binds_binary_iff hs).trans (and_iff_left (binds_null hz)), ?_, fun o => ?_⟩
      · rw [gives_binary_iff hn hnz ha (tree_null hz)]
        constructor
        · rintro ⟨o, o', ho, ho', hw⟩
          cases ho' []
          exact ⟨o, ho, hw⟩
        · rintro ⟨o, ho, hw⟩
          exact ⟨o, _, ho, fun _ => rfl, hw⟩
      · cases negated <;> exact Formula.eval_is_null_right
    · refine ⟨_, (Resolver.binary (if negated then .isNot else .is) { formula := .constant .null } ·),
        tree_binary (tree_null hz) ha (by rw [any_isNull_iff.mpr hknown, Bool.true_or]; exact hop),
        (binds_binary_iff hs).trans (and_iff_right (binds_null hz)), ?_, fun o => ?_⟩
      · rw [gives_binary_iff hnz hn (tree_null hz) ha]
        constructor
        · rintro ⟨o, o', ho, ho', hw⟩
          cases ho []
          exact ⟨o', ho', hw⟩
        · rintro ⟨o, ho, hw⟩
          exact ⟨_, o, fun _ => rfl, ho, hw⟩
      · cases negated <;> exact Formula.eval_is_null_left
  have hnames : d.namesCallable = true := by
    rcases hd with rfl | rfl <;> rw [namesCallable, hn, hnz] <;> rfl
  refine says_iff_of_gives hn ha hnames hb hbinds (hgives.trans ?_)
  constructor
  · rintro ⟨o, ho, hw⟩
    obtain ⟨v, hv, rfl⟩ := map_eq_ok_iff.mp ((heval o).symm.trans hw)
    exact ⟨v, ⟨o, ho, hv⟩, rfl⟩
  · rintro ⟨v, ⟨o, ho, hv⟩, rfl⟩
    exact ⟨o, ho, (heval o).trans (map_eq_ok_iff.mpr ⟨v, hv, rfl⟩)⟩

end Null

section Plain

variable {op : BinaryOperator} {spelling : String} {o : Sql.Operator} {comparison : Comparison}
  (hs : op.spelling = some spelling) (hop : Meaning.operator op false = some o)
  (hformula : ∀ x y, (Resolver.binary o x y).formula =
    .compare comparison (Resolver.matching x y) x.formula y.formula)
  (he : m.IsScalar e) (he' : m.IsScalar e') (hn : e.namesCallable = true)
  (hn' : e'.namesCallable = true) (hz : ¬e.StandsForNull) (hz' : ¬e'.StandsForNull)
include hs hop hformula he he' hn hn' hz hz'

/-- A comparison of which no side stands for null compares what the sides say. -/
theorem says_comparison (ticks : Bool) (t : Table) (s : Scope) : ∃ k, ∀ r w,
    m.Says ticks t s (.binary op e e') r w ↔
      ∃ x y, m.Says ticks t s e r x ∧ m.Says ticks t s e' r y ∧ w = comparison.apply k x y := by
  obtain ⟨a, ha⟩ := he (boundAs ticks)
  obtain ⟨a', ha'⟩ := he' (boundAs ticks)
  have htree := tree_binary ha ha' (by rw [any_isNull_eq_false hz hz']; exact hop)
  have hnames : (Expression.binary op e e').namesCallable = true := by
    rw [namesCallable, hn, hn']
    rfl
  have hmeans : ∀ r w, m.Says ticks t s (.binary op e e') r w ↔
    (m.Binds ticks e ∧ m.Binds ticks e') ∧
      ∃ x y, (∀ noted, Resolver.operand (.over t) a noted = .ok (x, noted)) ∧
        (∀ noted, Resolver.operand (.over t) a' noted = .ok (y, noted)) ∧
        (Resolver.binary o x y).formula.eval (SelectPlan.scopeOf { s with parameters := [] } r) =
          .ok w := by
    intro r w
    rw [says_iff_tree hnames htree, binds_binary_iff hs, gives_binary_iff hn hn' ha ha']
  by_cases hresolve : ∃ x y, (∀ noted, Resolver.operand (.over t) a noted = .ok (x, noted)) ∧
      ∀ noted, Resolver.operand (.over t) a' noted = .ok (y, noted)
  · obtain ⟨x, y, hx, hy⟩ := hresolve
    refine ⟨Resolver.matching x y, fun r w => (hmeans r w).trans ?_⟩
    constructor
    · rintro ⟨⟨hb, hb'⟩, x', y', hx', hy', hw⟩
      cases (hx []).symm.trans (hx' [])
      cases (hy []).symm.trans (hy' [])
      rw [hformula, Formula.eval] at hw
      cases hv : x.formula.eval (SelectPlan.scopeOf { s with parameters := [] } r) with
      | error fault =>
        rw [hv] at hw
        cases hw
      | ok v =>
        cases hv' : y.formula.eval (SelectPlan.scopeOf { s with parameters := [] } r) with
        | error fault =>
          rw [hv, hv'] at hw
          cases hw
        | ok v' =>
          rw [hv, hv'] at hw
          exact ⟨v, v', (says_iff_tree hn ha).mpr ⟨hb, x, hx, hv⟩,
            (says_iff_tree hn' ha').mpr ⟨hb', y, hy, hv'⟩, (Except.ok.inj hw).symm⟩
    · rintro ⟨v, v', hv, hv', rfl⟩
      obtain ⟨hb, x', hx', hv⟩ := (says_iff_tree hn ha).mp hv
      obtain ⟨hb', y', hy', hv'⟩ := (says_iff_tree hn' ha').mp hv'
      cases (hx []).symm.trans (hx' [])
      cases (hy []).symm.trans (hy' [])
      refine ⟨⟨hb, hb'⟩, x, y, hx, hy, ?_⟩
      rw [hformula, Formula.eval, hv, hv']
      rfl
  -- Where a side does not resolve, neither it nor the comparison says anything.
  · refine ⟨⟨none, .binary⟩, fun r w => (hmeans r w).trans (iff_of_false ?_ ?_)⟩
    · rintro ⟨-, x, y, hx, hy, -⟩
      exact hresolve ⟨x, y, hx, hy⟩
    · rintro ⟨v, v', hv, hv', -⟩
      obtain ⟨-, x, hx, -⟩ := (says_iff_tree hn ha).mp hv
      obtain ⟨-, y, hy, -⟩ := (says_iff_tree hn' ha').mp hv'
      exact hresolve ⟨x, y, hx, hy⟩

end Plain

theorem isNull_apply (op : Comparison) (k : Matching) (x y : Cell) :
    (op.apply k x y).isNull = (x.isNull || y.isNull) := by
  unfold Comparison.apply
  split
  · next h => exact h.symm
  · next h => exact (Bool.eq_false_of_not_eq_true h).symm

/-- **Comparison with null.** Take a scalar whose calls, rules of their own aside, have names of
functions, and on the other side what stands for null. Equality then says that the scalar is null
and inequality that it is not, and neither says null. Where no side stands for null, the text is the
plain comparison of the two texts, and it says null as soon as one side does. -/
theorem null_comparison (m : Mapping) (ticks : Bool) (t : Table) (s : Scope) :
    (∀ e z, m.IsScalar e → e.namesCallable = true → z.StandsForNull → ∀ r w,
      (m.Says ticks t s (.binary .eq e z) r w ↔ ∃ v, m.Says ticks t s e r v ∧
        w = Cell.ofBool v.isNull) ∧
      (m.Says ticks t s (.binary .eq z e) r w ↔ ∃ v, m.Says ticks t s e r v ∧
        w = Cell.ofBool v.isNull) ∧
      (m.Says ticks t s (.binary .ne e z) r w ↔ ∃ v, m.Says ticks t s e r v ∧
        w = Cell.ofBool !v.isNull) ∧
      (m.Says ticks t s (.binary .ne z e) r w ↔ ∃ v, m.Says ticks t s e r v ∧
        w = Cell.ofBool !v.isNull)) ∧
    ∀ op sign comparison,
      (op, sign, comparison) ∈ [(BinaryOperator.eq, "=", Comparison.eq), (.ne, "<>", .ne)] →
      ∀ e e', ¬e.StandsForNull → ¬e'.StandsForNull →
        (∀ c own, m.compile (.binary op e e') [] = .ok (c, own) → ∃ a b left right,
          m.compile e [] = .ok (a, left) ∧ m.compile e' [] = .ok (b, right) ∧
          c.text = "(" ++ a.text ++ (" " ++ sign ++ " ") ++ b.text ++ ")" ∧ own = left ++ right) ∧
        (m.IsScalar e → m.IsScalar e' → e.namesCallable = true →
          e'.namesCallable = true → ∃ k, ∀ r w,
          m.Says ticks t s (.binary op e e') r w ↔ ∃ x y, m.Says ticks t s e r x ∧
            m.Says ticks t s e' r y ∧ w = comparison.apply k x y ∧
            w.isNull = (x.isNull || y.isNull)) := by
  refine ⟨fun e z he hn hz r w => ⟨?_, ?_, ?_, ?_⟩, fun op sign comparison hmem e e' hz hz' => ⟨?_, ?_⟩⟩
  · simpa using says_null false rfl rfl he hn hz (.inl rfl)
  · simpa using says_null false rfl rfl he hn hz (.inr rfl)
  · simpa using says_null true rfl rfl he hn hz (.inl rfl)
  · simpa using says_null true rfl rfl he hn hz (.inr rfl)
  · intro c own hc
    have hnull : (e.known?.any HostValue.isNull || e'.known?.any HostValue.isNull) = false :=
      any_isNull_eq_false hz hz'
    rcases hmem with _ | ⟨_, _ | ⟨_, ⟨⟩⟩⟩
    all_goals
      obtain ⟨a, b, left, right, ha, hb, htext, hown⟩ := compile_binary rfl hc
      rw [hnull] at htext
      exact ⟨a, b, left, right, ha, hb, htext, hown⟩
  · intro he he' hn hn'
    obtain ⟨k, hk⟩ : ∃ k, ∀ r w, m.Says ticks t s (.binary op e e') r w ↔
        ∃ x y, m.Says ticks t s e r x ∧ m.Says ticks t s e' r y ∧ w = comparison.apply k x y := by
      rcases hmem with _ | ⟨_, _ | ⟨_, ⟨⟩⟩⟩
      all_goals exact says_comparison rfl rfl (fun _ _ => rfl) he he' hn hn' hz hz' ticks t s
    refine ⟨k, fun r w => (hk r w).trans ?_⟩
    constructor
    · rintro ⟨x, y, hx, hy, rfl⟩
      exact ⟨x, y, hx, hy, rfl, isNull_apply comparison k x y⟩
    · rintro ⟨x, y, hx, hy, hw, -⟩
      exact ⟨x, y, hx, hy, hw⟩

/-- Of a note without a body, the body is that of a draft without one, and to be some text
says null. -/
theorem null_comparison_notes :
    let body : Expression := .property "Body"
    let draft : Expression := .convert (.member
      (.constant (.object "Draft" [("Body", .scalar .null)])) "Body") .text
    let item : Expression := .constant (.scalar (.text "a"))
    Session.notes.IsScalar body ∧ draft.StandsForNull ∧ ¬body.StandsForNull ∧ ¬item.StandsForNull ∧
      Session.notes.Says true (Session.noteTable []) default (.binary .eq body draft)
        ⟨1, [.null, .null]⟩
        (Cell.ofBool true) ∧
      ∀ w, Session.notes.Says true (Session.noteTable []) default (.binary .ne body item)
        ⟨1, [.null, .null]⟩ w → w.isNull = true := by
  intro body draft item
  have hbody : Session.notes.IsScalar body := fun φ => ⟨_, rfl⟩
  have hdraft : draft.StandsForNull := .convert (.member rfl rfl) _
  have hno : ¬body.StandsForNull ∧ ¬item.StandsForNull := by
    rw [standsForNull_iff, standsForNull_iff]
    exact ⟨nofun, nofun⟩
  have hmeans : Session.notes.Says true (Session.noteTable []) default body
      ⟨1, [.null, .null]⟩ .null :=
    says?_eq_some_iff.mp (by decide +kernel)
  obtain ⟨hnull, hplain⟩ := null_comparison Session.notes true (Session.noteTable []) default
  refine ⟨hbody, hdraft, hno.1, hno.2, (hnull body draft hbody rfl hdraft _ _).1.mpr ⟨.null, hmeans, rfl⟩,
    fun w hw => ?_⟩
  obtain ⟨k, hk⟩ := (hplain .ne "<>" .ne (by simp) body item hno.1 hno.2).2 hbody (fun φ => ⟨_, rfl⟩) rfl rfl
  obtain ⟨x, y, hx, -, -, hw⟩ := (hk _ w).mp hw
  cases Option.some.inj ((says?_eq_some_iff.mpr hx).symm.trans (says?_eq_some_iff.mpr hmeans))
  exact hw

/-- A call of a name that is none of a function: its negation is read as that of the comparison. -/
theorem not_null_comparison_of_call : ¬∀ e z, Session.notes.IsScalar e → z.StandsForNull → ∀ r w,
    Session.notes.Says true (Session.noteTable []) default (.binary .eq e z) r w ↔
      ∃ v, Session.notes.Says true (Session.noteTable []) default e r v ∧
        w = Cell.ofBool v.isNull := by
  intro h
  have htrue : Session.notes.Says true (Session.noteTable []) default
      (.binary .eq (.call "not" [.property "Id"]) (.constant (.scalar .null)))
        ⟨1, [.null, .text "a"]⟩
      (Cell.ofBool true) := says?_eq_some_iff.mp (by decide +kernel)
  have hfalse : Session.notes.Says true (Session.noteTable []) default
    (.call "not" [.property "Id"])
      ⟨1, [.null, .text "a"]⟩ (Cell.ofBool false) := says?_eq_some_iff.mp (by decide +kernel)
  obtain ⟨v, hv, htruth⟩ := (h _ _ (fun φ => ⟨_, rfl⟩) .constant _ _).mp htrue
  cases Option.some.inj ((says?_eq_some_iff.mpr hv).symm.trans (says?_eq_some_iff.mpr hfalse))
  exact absurd htruth (by decide)

end Mapping

end RecordMapper
