import Mathlib.Data.List.Forall2
import RecordMapper.Proofs.Selecting

/-!
# Resolving with parameters

A scalar with parameters means what the scalar with the bound values in their places means.

1. `Operand.Same`: two operands bring the same to a comparison and have the same values.
2. `Resolver.Together`: two resolutions that succeed together, with outcomes that are related.
3. `Resolver.Agrees`: the scalar with the values and the one with the parameters resolve together,
   to the same operand. It is kept by every form that compiled conditions use.
-/

namespace RecordMapper

open Sql (Scalar)

/-- The first operand, under the given values of parameters, is the second without any. -/
structure Operand.Same (cells : List Cell) (o o' : Operand) : Prop where
  affinity : o.affinity = o'.affinity
  collation : o.collation = o'.collation
  eval : ∀ s : Scope, o.formula.eval { s with parameters := cells } =
    o'.formula.eval { s with parameters := [] }

namespace Resolver

variable {α β : Type} {x : Resolver α} {f : α → Resolver β} {noted noted' : List Aggregate}

theorem bind_ok {a : α} (h : x noted = .ok (a, noted')) : (x >>= f) noted = f a noted' := by
  simp only [bind, StateT.bind, h, Except.bind]

theorem stateT_pure (a : α) (noted : List Aggregate) :
    (StateT.pure a : Resolver α) noted = .ok (a, noted) := (rfl)

theorem of_bind_ok {b : β} (h : (x >>= f) noted = .ok (b, noted')) :
    ∃ a noted'', x noted = .ok (a, noted'') ∧ f a noted'' = .ok (b, noted') := by
  cases hx : x noted with
  | error e =>
    simp only [bind, StateT.bind, hx, Except.bind] at h
    cases h
  | ok p =>
    refine ⟨p.1, p.2, rfl, ?_⟩
    simpa only [bind, StateT.bind, hx, Except.bind] using h

/-- Two resolutions that either both succeed, with related outcomes and whatever is noted before, or
both fail. -/
def Together (R : α → β → Prop) (x : Resolver α) (y : Resolver β) : Prop :=
  (∃ a b, R a b ∧ ∀ noted, x noted = .ok (a, noted) ∧ y noted = .ok (b, noted)) ∨
    ∀ noted, (∃ e, x noted = .error e) ∧ ∃ e, y noted = .error e

namespace Together

variable {γ δ : Type} {R : α → β → Prop} {S : γ → δ → Prop} {y : Resolver β}

theorem pure {a : α} {b : β} (h : R a b) : Together R (pure a) (pure b) :=
  .inl ⟨a, b, h, fun _ => ⟨rfl, rfl⟩⟩

theorem refuse (fault fault' : EngineFault) (offset offset' : Option Nat) :
    Together R (refuse fault offset) (refuse fault' offset') :=
  .inr fun _ => ⟨⟨_, rfl⟩, ⟨_, rfl⟩⟩

theorem bind {f : α → Resolver γ} {g : β → Resolver δ} (h : Together R x y)
    (hf : ∀ a b, R a b → Together S (f a) (g b)) : Together S (x >>= f) (y >>= g) := by
  rcases h with ⟨a, b, hab, h⟩ | h
  · rcases hf a b hab with ⟨c, d, hcd, hfg⟩ | hfg
    · refine .inl ⟨c, d, hcd, fun noted => ?_⟩
      rw [bind_ok (h noted).1, bind_ok (h noted).2]
      exact hfg noted
    · refine .inr fun noted => ?_
      rw [bind_ok (h noted).1, bind_ok (h noted).2]
      exact hfg noted
  · refine .inr fun noted => ?_
    obtain ⟨⟨e, hx⟩, ⟨e', hy⟩⟩ := h noted
    refine ⟨⟨e, ?_⟩, ⟨e', ?_⟩⟩
    · simp only [Bind.bind, StateT.bind, hx, Except.bind]
    · simp only [Bind.bind, StateT.bind, hy, Except.bind]

theorem forth (h : Together R x y) {b : β} (hy : y noted = .ok (b, noted')) :
    ∃ a, x noted = .ok (a, noted') ∧ R a b := by
  rcases h with ⟨a, b', hab, h⟩ | h
  · cases hy.symm.trans (h noted).2
    exact ⟨a, (h noted).1, hab⟩
  · obtain ⟨-, e, he⟩ := h noted
    cases hy.symm.trans he

theorem back (h : Together R x y) {a : α} (hx : x noted = .ok (a, noted')) :
    ∃ b, (∀ noted, y noted = .ok (b, noted)) ∧ R a b := by
  rcases h with ⟨a', b, hab, h⟩ | h
  · cases hx.symm.trans (h noted).1
    exact ⟨b, fun noted => (h noted).2, hab⟩
  · obtain ⟨⟨e, he⟩, -⟩ := h noted
    cases hx.symm.trans he

end Together

end Resolver

namespace Operand.Same

variable {cells : List Cell} {a a' b b' : Operand}

theorem formula_eval {f f' : Formula} (h : ∀ s : Scope, f.eval { s with parameters := cells } =
    f'.eval { s with parameters := [] }) : Same cells { formula := f } { formula := f' } :=
  ⟨rfl, rfl, h⟩

theorem constant (c : Cell) : Same cells { formula := .constant c } { formula := .constant c } :=
  formula_eval fun _ => rfl

theorem parameter {index : Nat} {c : Cell} (h : cells[index - 1]?.getD .null = c) :
    Same cells { formula := .parameter index } { formula := .constant c } :=
  formula_eval fun _ => congrArg Except.ok h

theorem column (t : Table) (i : Nat) :
    Same cells (Resolver.columnOperand t i) (Resolver.columnOperand t i) := by
  refine ⟨rfl, rfl, fun s => ?_⟩
  unfold Resolver.columnOperand
  split
  · split
    · rfl
    · rfl
  · rfl

theorem matching (ha : Same cells a a') (hb : Same cells b b') :
    Resolver.matching a b = Resolver.matching a' b' := by
  unfold Resolver.matching
  rw [ha.affinity, hb.affinity, ha.collation, hb.collation]

theorem binary (op : Sql.Operator) (ha : Same cells a a') (hb : Same cells b b') :
    Same cells (Resolver.binary op a b) (Resolver.binary op a' b') := by
  have hm := matching ha hb
  cases op <;> refine formula_eval fun s => ?_ <;>
    simp only [Formula.eval, ha.eval s, hb.eval s, hm]

theorem like (negated : Bool) (ha : Same cells a a') (hb : Same cells b b') :
    Same cells { formula := .like negated a.formula b.formula none }
      { formula := .like negated a'.formula b'.formula none } :=
  formula_eval fun s => by simp only [Formula.eval, ha.eval s, hb.eval s]

theorem evalEach {os os' : List Operand} (h : List.Forall₂ (Same cells) os os') (s : Scope) :
    Formula.evalEach { s with parameters := cells } (os.map Operand.formula) =
      Formula.evalEach { s with parameters := [] } (os'.map Operand.formula) := by
  induction h with
  | nil => rfl
  | cons ho _ ih => simp only [List.map_cons, Formula.evalEach, ho.eval s, ih]

theorem inList (negated : Bool) (ha : Same cells a a') {os os' : List Operand}
    (h : List.Forall₂ (Same cells) os os') :
    Same cells
      { formula := .inList negated ⟨a.affinity, (a.collation.map Prod.fst).getD .binary⟩ a.formula
          (os.map Operand.formula) }
      { formula := .inList negated ⟨a'.affinity, (a'.collation.map Prod.fst).getD .binary⟩ a'.formula
          (os'.map Operand.formula) } :=
  formula_eval fun s => by
    simp only [Formula.eval, ha.eval s, evalEach h s, ha.affinity, ha.collation]

theorem findSome?_collation {os os' : List Operand} (h : List.Forall₂ (Same cells) os os') :
    os.findSome? Operand.collation = os'.findSome? Operand.collation := by
  induction h with
  | nil => rfl
  | cons ho _ ih => rw [List.findSome?_cons, List.findSome?_cons, ho.collation, ih]

end Operand.Same

/-- Two tables whose rows look the same to a formula. -/
structure Table.SameColumns (t t' : Table) : Prop where
  columns : t.columns = t'.columns
  rowidColumn : t.rowidColumn = t'.rowidColumn

/-- The names of a table's columns, and the parameters of a statement. -/
def Naming.over (t : Table) (parameters : Sql.Parameters := {}) : Naming :=
  { table := some t, parameters }

/-- What a quoted name means: a column, or else a text. -/
def Table.operandOf (t : Table) (name : String) : Operand :=
  match t.columnPlace? name with
  | some i => Resolver.columnOperand t i
  | none => { formula := .constant (.text name) }

namespace Resolver

/-- The two scalars resolve together, the first one with its parameters, to operands that mean the
same. -/
def Agrees (t t' : Table) (parameters : Sql.Parameters) (cells : List Cell) (a b : Scalar) : Prop :=
  Together (Operand.Same cells) (operand (.over t parameters) a) (operand (.over t') b)

theorem column_quoted {n : Naming} {t : Table} (ht : n.table = some t) (hr : n.results = [])
    (name : String) (offset : Nat) : column n none name true offset = pure (t.operandOf name) := by
  unfold column Table.operandOf
  simp only [ht, hr, List.find?_nil, Option.isNone_none, Bool.not_true, Bool.and_false]
  cases t.columnPlace? name <;> rfl

section Call

variable {t : Table} {parameters : Sql.Parameters} {name : String} {os : List Operand}
  {offset : Nat}

def called (name : String) (os : List Operand) : Operand :=
  let collation := ((os.findSome? Operand.collation).map Prod.fst).getD .binary
  { formula := .call name collation (os.map Operand.formula) }

theorem call_ok (hag : Function.isAggregate name os.length = false)
    (hadm : Function.admits name os.length = some true) :
    call (.over t parameters) name false false os offset noted =
      .ok (called name os, noted) := by
  unfold call
  simp only [hag, hadm, Bool.false_and, Bool.false_eq_true, if_false]
  rfl

theorem call_error (t : Table) (parameters : Sql.Parameters) (offset : Nat)
    (h : ¬(Function.isAggregate name os.length = false ∧ Function.admits name os.length = some true)) :
    ∃ fault place, call (.over t parameters) name false false os offset = refuse fault place := by
  cases hag : Function.isAggregate name os.length with
  | true =>
    refine ⟨.misusedAggregate name, some offset, ?_⟩
    unfold call
    simp only [hag, Bool.false_eq_true, false_implies, decide_true, Bool.true_and, if_true]
    rfl
  | false =>
    cases hadm : Function.admits name os.length with
    | none =>
      refine ⟨.noFunction name, some offset, ?_⟩
      unfold call
      simp only [hag, hadm, Bool.false_and, Bool.false_eq_true, if_false]
    | some admitted =>
      cases admitted with
      | false =>
        refine ⟨.argumentCount name, some offset, ?_⟩
        unfold call
        simp only [hag, hadm, Bool.false_and, Bool.false_eq_true, if_false]
      | true => exact absurd ⟨hag, hadm⟩ h

end Call

end Resolver

theorem Operand.Same.called (name : String) {cells : List Cell} {os os' : List Operand}
    (h : List.Forall₂ (Operand.Same cells) os os') :
    Operand.Same cells (Resolver.called name os) (Resolver.called name os') := by
  unfold Resolver.called
  rw [findSome?_collation h]
  exact formula_eval fun s => by simp only [Formula.eval, evalEach h s, Formula.counter?]

namespace Resolver

namespace Agrees

variable {t t' : Table} {parameters : Sql.Parameters} {cells : List Cell} {a a' b b' : Scalar}

theorem literal (c : Cell) : Agrees t t' parameters cells (.literal c) (.literal c) := by
  unfold Agrees
  rw [operand, operand]
  exact .pure (.constant c)

theorem parameter {place : Nat} {c : Cell}
    (h : cells[parameters.indexAt place - 1]?.getD .null = c) :
    Agrees t t' parameters cells (.parameter place) (.literal c) := by
  unfold Agrees
  rw [operand, operand]
  exact .pure (.parameter h)

theorem column (h : t.SameColumns t') (name : String) (offset : Nat) :
    Agrees t t' parameters cells (.column none name true offset) (.column none name true 0) := by
  have hsame : t.operandOf name = t'.operandOf name := by
    unfold Table.operandOf Table.columnPlace? columnOperand
    rw [h.columns, h.rowidColumn]
  unfold Agrees
  rw [operand, operand, column_quoted rfl rfl, column_quoted rfl rfl, hsame]
  refine .pure ?_
  unfold Table.operandOf
  split
  · exact .column t' _
  · exact .constant _

theorem binary (op : Sql.Operator) (ha : Agrees t t' parameters cells a a')
    (hb : Agrees t t' parameters cells b b') :
    Agrees t t' parameters cells (.binary op a b) (.binary op a' b') := by
  unfold Agrees
  rw [operand, operand]
  exact ha.bind fun _ _ sa => hb.bind fun _ _ sb => .pure (sa.binary op sb)

theorem like (negated : Bool) (ha : Agrees t t' parameters cells a a')
    (hb : Agrees t t' parameters cells b b') :
    Agrees t t' parameters cells (.like negated a b none) (.like negated a' b' none) := by
  unfold Agrees
  rw [operand, operand]
  exact ha.bind fun _ _ sa => hb.bind fun _ _ sb => .pure (sa.like negated sb)

theorem each {as bs : List Scalar} (h : List.Forall₂ (Agrees t t' parameters cells) as bs) :
    Together (List.Forall₂ (Operand.Same cells)) (operands (.over t parameters) as)
      (operands (.over t') bs) := by
  induction h with
  | nil =>
    rw [operands, operands]
    exact .pure .nil
  | cons ha _ ih =>
    rw [operands, operands]
    exact ha.bind fun _ _ sa => ih.bind fun _ _ ss => .pure (.cons sa ss)

theorem inList (negated : Bool) (ha : Agrees t t' parameters cells a a') {as bs : List Scalar}
    (h : List.Forall₂ (Agrees t t' parameters cells) as bs) :
    Agrees t t' parameters cells (.inList negated a as) (.inList negated a' bs) := by
  unfold Agrees
  rw [operand, operand]
  exact ha.bind fun _ _ sa => (each h).bind fun _ _ ss => .pure (sa.inList negated ss)

theorem call (name : String) {as bs : List Scalar}
    (h : List.Forall₂ (Agrees t t' parameters cells) as bs) (offset : Nat) :
    Agrees t t' parameters cells (.call name false false as offset)
      (.call name false false bs 0) := by
  have hinner : ∀ (u : Table) (ps : Sql.Parameters) (k : Nat),
      (if Function.isAggregate name k then { Naming.over u ps with aggregates := false }
        else Naming.over u ps) = Naming.over u ps := by
    intro u ps k
    split <;> rfl
  unfold Agrees
  rw [operand, operand, hinner, hinner]
  refine (each h).bind fun os os' ss => ?_
  by_cases hok : Function.isAggregate name os.length = false ∧
    Function.admits name os.length = some true
  · have hok' := ss.length_eq ▸ hok
    exact .inl ⟨_, _, .called name ss, fun _ => ⟨call_ok hok.1 hok.2, call_ok hok'.1 hok'.2⟩⟩
  · obtain ⟨fault, place, hx⟩ := call_error t parameters offset hok
    obtain ⟨fault', place', hy⟩ := call_error t' {} 0
      (ss.length_eq ▸ hok : ¬(_ ∧ Function.admits name os'.length = some true))
    rw [hx, hy]
    exact .refuse _ _ _ _

end Agrees

end Resolver

end RecordMapper
