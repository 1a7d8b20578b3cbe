import RecordMapper.Proofs.Framing
import RecordMapper.Proofs.Searching

/-!
# Expressions as trees

What an expression says of a row is what its tree says, the tree with the values in their places.

1. `Mapping.tree?`: the scalar that an expression is read as. `Mapping.IsScalar`: there is one.
2. `Mapping.callable_of_reads`: a tree calls functions only, where the calls of the expression have
   names of functions.
3. `Mapping.evaluated_iff_tree`: compiling, binding, reading, resolving and evaluating the text
   comes to what the tree evaluates to. `Mapping.says_iff_tree`: so it does on a row.
-/

namespace RecordMapper

open Sql (Scalar)

/-! ## Values of trees -/

namespace Sql.Scalar

/-- A scalar without parameters comes to a value on a row. -/
def Gives (a : Scalar) (t : Table) (s : Scope) (r : Row) (value : Cell) : Prop :=
  ∃ o, (∀ noted, Resolver.operand (.over t) a noted = .ok (o, noted)) ∧
    o.formula.eval (SelectPlan.scopeOf { s with parameters := [] } r) = .ok value

variable {t : Table} {s : Scope} {a : Scalar} {r : Row} {value value' : Cell}

theorem Gives.unique (h : a.Gives t s r value) (h' : a.Gives t s r value') : value = value' := by
  obtain ⟨o, ho, heval⟩ := h
  obtain ⟨o', ho', heval'⟩ := h'
  cases (ho []).symm.trans (ho' [])
  exact Except.ok.inj (heval.symm.trans heval')

end Sql.Scalar

/-! ## Functions of a meaning -/

namespace Meaning

/-- Everything that the meaning calls has the name of a function. -/
def Callable (μ : Meaning) : Prop := ∀ n ∈ μ.reading.callees, Sql.Callable n

variable {μ μ' ν : Meaning} {μs : List Meaning} {a : Scalar} {name : String}

theorem Callable.scalar (h : μ.Callable) (ha : μ.reading.scalar? = some a) :
    ∀ n ∈ a.callees, Sql.Callable n := by
  rw [Reading.callees_of_scalar? ha]
  exact h

theorem Callable.scalars {as : List Scalar} (h : μ.Callable) (ha : μ.reading.scalars? = some as) :
    ∀ n ∈ Scalar.calleesEach as, Sql.Callable n := by
  have hreading : μ.reading = .enclosed as := by
    cases hr : μ.reading with
    | enclosed bs =>
      rw [hr] at ha
      cases ha
      rfl
    | _ =>
      rw [hr] at ha
      cases ha
  rw [Callable, hreading] at h
  exact h

theorem callable_form (h : ∀ n ∈ a.callees, Sql.Callable n) : (form a).Callable := by
  intro n hn
  have hcallees : (form a).reading.callees = a.callees ++ [] := rfl
  rw [hcallees, List.append_nil] at hn
  exact h n hn

theorem callable_constant (φ : HostValue → Cell) (v : HostValue) :
    (constant (Mapping.total φ) v).Callable := by
  cases v with
  | scalar v => exact fun n hn => absurd hn List.not_mem_nil
  | object typeName members => exact fun n hn => absurd hn List.not_mem_nil
  | list items =>
    rw [Callable, Mapping.reading_list, Reading.callees, Mapping.calleesEach_literals]
    exact fun n hn => absurd hn List.not_mem_nil

theorem callable_operation {op : BinaryOperator} (h : μ.Callable) (h' : μ'.Callable)
    (hν : operation op μ μ' = some ν) : ν.Callable := by
  obtain ⟨o, -, hν⟩ := Option.bind_eq_some_iff.mp hν
  obtain ⟨a, ha, hν⟩ := Option.bind_eq_some_iff.mp hν
  obtain ⟨b, hb, hν⟩ := Option.bind_eq_some_iff.mp hν
  cases hν
  exact callable_form fun n hn => (List.mem_append.mp hn).elim (h.scalar ha n) (h'.scalar hb n)

theorem callable_like {pattern : Scalar → Scalar} (h : μ.Callable) (h' : μ'.Callable)
    (hp : ∀ b n, n ∈ (pattern b).callees → n ∈ b.callees) (hν : like μ μ' pattern = some ν) :
    ν.Callable := by
  obtain ⟨a, ha, hν⟩ := Option.bind_eq_some_iff.mp hν
  obtain ⟨b, hb, hν⟩ := Option.bind_eq_some_iff.mp hν
  cases hν
  exact callable_form fun n hn =>
    (List.mem_append.mp hn).elim (h.scalar ha n) fun hn => h'.scalar hb n (hp b n hn)

theorem callable_inside (h : μ.Callable) (h' : μ'.Callable) (hν : inside μ μ' = some ν) :
    ν.Callable := by
  obtain ⟨a, ha, hν⟩ := Option.bind_eq_some_iff.mp hν
  obtain ⟨as, has, hν⟩ := Option.bind_eq_some_iff.mp hν
  cases hν
  exact callable_form fun n hn => (List.mem_append.mp hn).elim (h'.scalar ha n) (h.scalars has n)

theorem callable_wrapped (hn : Sql.Callable name) (h : μ.Callable)
    (hν : (do return form (.call name false false [← μ.reading.scalar?] 0)) = some ν) : ν.Callable := by
  obtain ⟨a, ha, hν⟩ := Option.bind_eq_some_iff.mp hν
  cases hν
  refine callable_form fun n hmem => ?_
  rcases List.mem_cons.mp hmem with rfl | hmem
  · exact hn
  · rw [Scalar.calleesEach, Scalar.calleesEach, List.append_nil] at hmem
    exact h.scalar ha n hmem

theorem callable_function (hn : Sql.isCallable (lowerCase name) = true) (h : ∀ μ ∈ μs, μ.Callable)
    (hν : function name μs = some ν) : ν.Callable := by
  obtain ⟨as, has, hν⟩ := Option.bind_eq_some_iff.mp hν
  cases hν
  have harguments : ∀ n ∈ Scalar.calleesEach as, Sql.Callable n := by
    clear hν
    induction μs generalizing as with
    | nil =>
      cases has
      exact nofun
    | cons μ μs ih =>
      rw [List.mapM_cons] at has
      obtain ⟨a, ha, has⟩ := Option.bind_eq_some_iff.mp has
      obtain ⟨as, has', has⟩ := Option.bind_eq_some_iff.mp has
      cases has
      intro n hn
      exact (List.mem_append.mp hn).elim ((h μ List.mem_cons_self).scalar ha n)
        (ih (fun μ hμ => h μ (List.mem_cons_of_mem _ hμ)) as has' n) 
  intro n hmem
  rcases List.mem_cons.mp hmem with rfl | hmem
  · exact Sql.callable_of_isCallable hn
  · exact harguments n hmem

theorem callable_call
    (hn : (Emits.calls.contains (name, μs.length) || Sql.isCallable (lowerCase name)) = true)
    (h : ∀ μ ∈ μs, μ.Callable) (hν : call name μs = some ν) : ν.Callable := by
  by_cases hmem : (name, μs.length) ∈ Emits.calls
  · simp only [Emits.calls, List.mem_cons, List.not_mem_nil, or_false, Prod.mk.injEq] at hmem
    obtain ⟨rfl, hlen⟩ | ⟨rfl, hlen⟩ := hmem
    · obtain ⟨a, b, rfl⟩ := List.length_eq_two.mp hlen
      exact callable_like (h a (by simp)) (h b (by simp)) (fun _ _ hn => hn) hν
    · obtain ⟨a, b, rfl⟩ := List.length_eq_two.mp hlen
      exact callable_inside (h a (by simp)) (h b (by simp)) hν
  · rw [Means.call_other hmem] at hν
    rw [Bool.or_eq_true, List.contains_iff_mem] at hn
    exact callable_function (hn.resolve_left hmem) h hν

theorem callable_method {receiver : Option Meaning}
    (hr : (name, μs.length) ∈ Emits.methods → ∀ μ, receiver = some μ → μ.Callable)
    (hn : (name, μs.length) ∉ Emits.methods → Sql.isCallable (lowerCase name) = true)
    (h : ∀ μ ∈ μs, μ.Callable) (hν : method receiver name μs = some ν) : ν.Callable := by
  by_cases hmem : (name, μs.length) ∈ Emits.methods
  · replace hr := hr hmem
    simp only [Emits.methods, List.mem_cons, List.not_mem_nil, or_false, Prod.mk.injEq,
      List.length_eq_zero_iff, List.length_eq_one_iff] at hmem
    obtain ⟨rfl, μ', rfl⟩ | ⟨rfl, μ', rfl⟩ | ⟨rfl, μ', rfl⟩ | ⟨rfl, μ', rfl⟩ | ⟨rfl, rfl⟩ |
      ⟨rfl, rfl⟩ := hmem
    · obtain ⟨μ, rfl, hν⟩ := Option.bind_eq_some_iff.mp hν
      have hν : (if μ.isText then like μ μ' fun b => .binary .concat (.binary .concat percent b) percent
        else inside μ μ') = some ν := hν
      split at hν
      · exact callable_like (hr μ rfl) (h μ' (by simp)) (fun b n hn => by
          simpa [Scalar.callees, percent] using hn) hν
      · exact callable_inside (hr μ rfl) (h μ' (by simp)) hν
    · obtain ⟨μ, rfl, hν⟩ := Option.bind_eq_some_iff.mp hν
      exact callable_like (hr μ rfl) (h μ' (by simp)) (fun b n hn => by
        simpa [Scalar.callees, percent] using hn) hν
    · obtain ⟨μ, rfl, hν⟩ := Option.bind_eq_some_iff.mp hν
      exact callable_like (hr μ rfl) (h μ' (by simp)) (fun b n hn => by
        simpa [Scalar.callees, percent] using hn) hν
    · obtain ⟨μ, rfl, hν⟩ := Option.bind_eq_some_iff.mp hν
      obtain ⟨a, ha, hν⟩ := Option.bind_eq_some_iff.mp hν
      obtain ⟨b, hb, hν⟩ := Option.bind_eq_some_iff.mp hν
      cases hν
      exact callable_form fun n hn =>
        (List.mem_append.mp hn).elim ((hr μ rfl).scalar ha n) ((h μ' (by simp)).scalar hb n)
    · obtain ⟨μ, rfl, hν⟩ := Option.bind_eq_some_iff.mp hν
      exact callable_wrapped Means.callable_lower (hr μ rfl) hν
    · obtain ⟨μ, rfl, hν⟩ := Option.bind_eq_some_iff.mp hν
      exact callable_wrapped Means.callable_upper (hr μ rfl) hν
  · rw [Means.method_other hmem] at hν
    exact callable_function (hn hmem) h hν

theorem callable_convert {φ : HostValue → Cell} {target : DataType} (h : μ.Callable)
    (hν : μ.convert (Mapping.total φ) target = some ν) : ν.Callable := by
  unfold convert at hν
  split at hν
  · split at hν
    · cases hν
      exact h
    · obtain ⟨v, -, rfl⟩ := Option.map_eq_some_iff.mp hν
      exact callable_constant φ (.scalar v)
  · cases hν
    exact h

theorem callable_hostMember {φ : HostValue → Cell}
    (hν : μ.hostMember (Mapping.total φ) name = some ν) :
    ν.Callable := by
  unfold hostMember at hν
  split at hν
  · obtain ⟨v, -, rfl⟩ := Option.map_eq_some_iff.mp hν
    exact callable_constant φ v
  · cases hν

end Meaning

namespace Mapping

open Expression

variable {m : Mapping} {φ : HostValue → Cell}

theorem length_readsEach {es : List Expression} {μs : List Meaning}
    (h : m.readsEach (total φ) es = some μs) : μs.length = es.length := by
  rw [← (m.means_compileEach es h).length_eq, length_compileEach]

mutual

/-- What an expression is read as calls functions only. -/
theorem callable_of_reads (m : Mapping) (φ : HostValue → Cell) : (e : Expression) →
    e.namesCallable = true → {μ : Meaning} → m.reads (total φ) e = some μ → μ.Callable
  | .constant v, _, _, hμ => by
    cases hμ
    exact Meaning.callable_constant φ v
  | .member object name, _, _, hμ => by
    by_cases ho : object = .parameter
    · subst ho
      obtain ⟨c, -, rfl⟩ := Option.map_eq_some_iff.mp hμ
      exact nofun
    · rw [reads_member ho] at hμ
      obtain ⟨μ, -, hμ⟩ := Option.bind_eq_some_iff.mp hμ
      exact Meaning.callable_hostMember hμ
  | .binary op left right, hn, _, hμ => by
    rw [namesCallable, Bool.and_eq_true] at hn
    obtain ⟨μ, hl, hμ⟩ := Option.bind_eq_some_iff.mp hμ
    obtain ⟨μ', hr, hμ⟩ := Option.bind_eq_some_iff.mp hμ
    exact Meaning.callable_operation (m.callable_of_reads φ left hn.1 hl)
      (m.callable_of_reads φ right hn.2 hr) hμ
  | .call name arguments, hn, _, hμ => by
    rw [namesCallable, Bool.and_eq_true] at hn
    obtain ⟨μs, hμs, hμ⟩ := Option.bind_eq_some_iff.mp hμ
    rw [← length_readsEach hμs] at hn
    exact Meaning.callable_call hn.1 (m.callable_of_readsEach φ arguments hn.2 hμs) hμ
  | .method receiver name arguments, hn, _, hμ => by
    rw [namesCallable, Bool.and_eq_true] at hn
    obtain ⟨μs, hμs, hμ⟩ := Option.bind_eq_some_iff.mp hμ
    rw [← length_readsEach hμs] at hn
    refine Meaning.callable_method (fun hmem μ hreceiver => ?_) (fun hmem => ?_)
      (m.callable_of_readsEach φ arguments hn.2 hμs) hμ
    · rw [if_pos (List.contains_iff_mem.mpr hmem)] at hn
      exact m.callable_of_reads φ receiver hn.1 hreceiver
    · rw [if_neg (List.contains_iff_mem.not.mpr hmem)] at hn
      exact hn.1
  | .convert operand target, hn, _, hμ => by
    obtain ⟨μ, ho, hμ⟩ := Option.bind_eq_some_iff.mp hμ
    exact Meaning.callable_convert (m.callable_of_reads φ operand hn ho) hμ
  | .parameter, _, _, hμ | .unary _ _, _, _, hμ | .conditional _ _ _, _, _, hμ => nomatch hμ

theorem callable_of_readsEach (m : Mapping) (φ : HostValue → Cell) : (es : List Expression) →
    namesCallableEach es = true → {μs : List Meaning} → m.readsEach (total φ) es = some μs →
    ∀ μ ∈ μs, μ.Callable
  | [], _, _, hμ => by
    cases hμ
    exact nofun
  | e :: r, hn, _, hμ => by
    rw [namesCallableEach, Bool.and_eq_true] at hn
    obtain ⟨μ, he, hμ⟩ := Option.bind_eq_some_iff.mp hμ
    obtain ⟨μs, hr, hμ⟩ := Option.bind_eq_some_iff.mp hμ
    cases hμ
    intro ν hν
    rcases List.mem_cons.mp hν with rfl | hν
    · exact m.callable_of_reads φ e hn.1 he
    · exact m.callable_of_readsEach φ r hn.2 hr ν hν

end

/-! ## Trees -/

/-- The scalar that an expression is read as, its values taken for some cells. -/
def tree? (m : Mapping) (φ : HostValue → Cell) (e : Expression) : Option Scalar :=
  (m.reads (total φ) e).bind fun μ => μ.reading.scalar?

/-- The expression is one scalar, whatever its values are taken for. -/
def IsScalar (m : Mapping) (e : Expression) : Prop := ∀ φ, ∃ a, m.tree? φ e = some a

def boundAs (ticks : Bool) (v : HostValue) : Cell := (v.cell? ticks).getD .null

/-- Values that can be bound are bound as the cells of each. -/
theorem stored_iff {ticks : Bool} {values : List HostValue} {cells : List Cell} :
    Stored ticks values cells ↔
      (∀ v ∈ values, (v.cell? ticks).isSome = true) ∧ cells = values.map (boundAs ticks) := by
  have hone : ∀ (v : HostValue) (c : Cell), (v.toCell ticks).map Cell.bound = .ok c ↔
      v.cell? ticks = some c := by
    intro v c
    unfold HostValue.cell?
    cases (v.toCell ticks).map Cell.bound with
    | error fault => exact iff_of_false nofun nofun
    | ok d =>
      rw [Except.ok.injEq]
      exact Option.some_inj.symm
  unfold Stored
  simp only [hone]
  induction values generalizing cells with
  | nil => simp
  | cons v r ih =>
    rw [List.forall₂_cons_left_iff]
    constructor
    · rintro ⟨c, cells, hc, hr, rfl⟩
      obtain ⟨hall, rfl⟩ := ih.mp hr
      refine ⟨fun w hw => ?_, ?_⟩
      · rcases List.mem_cons.mp hw with rfl | hw
        · rw [hc]
          rfl
        · exact hall w hw
      · rw [List.map_cons, boundAs, hc]
        rfl
    · rintro ⟨hall, rfl⟩
      obtain ⟨c, hc⟩ := Option.isSome_iff_exists.mp (hall v List.mem_cons_self)
      refine ⟨c, r.map (boundAs ticks), hc, ih.mpr ⟨fun w hw => hall w (List.mem_cons_of_mem _ hw), rfl⟩, ?_⟩
      rw [List.map_cons, boundAs, hc]
      rfl

/-- An expression with a tree compiles, to a text that is read as the tree. -/
theorem compile_of_tree {e : Expression} {a : Scalar} (hn : e.namesCallable = true)
    (ha : m.tree? φ e = some a) :
    ∃ c own, m.compile e [] = .ok (c, own) ∧ Sql.Phrase c.text (own.map φ) a := by
  obtain ⟨μ, hμ, ha⟩ := Option.bind_eq_some_iff.mp ha
  obtain ⟨c, own, hcompile, -, -, -, hof⟩ := m.means_compile e hμ
  obtain ⟨cells, hgiven, hphrase⟩ := hof.phrase ha ((m.callable_of_reads φ e hn hμ).scalar ha)
  rw [given_total hgiven] at hphrase
  exact ⟨c, own, hcompile [], hphrase⟩

/-! ## What an expression says -/

/-- What the expression compiles to is read to its end and can be bound. -/
def Binds (m : Mapping) (ticks : Bool) (e : Expression) : Prop :=
  ∃ c own, m.compile e [] = .ok (c, own) ∧ NoZero c.text ∧ ∀ v ∈ own, (v.cell? ticks).isSome = true

variable {ticks : Bool} {t : Table} {s : Scope} {e e' : Expression} {a a' : Scalar} {r : Row}
  {value : Cell}

/-- Whatever holds of the values that the text of an expression comes to on rows holds of those of
its tree, and the other way round. -/
theorem evaluated_iff_tree (hn : e.namesCallable = true) (ha : m.tree? (boundAs ticks) e = some a)
    (P : (Row → Except EngineFault Cell) → Prop) :
    (∃ c arguments cells b ps f, m.compile e [] = .ok (c, arguments) ∧ Stored ticks arguments cells ∧
      Sql.readScalar c.text = .ok (b, ps) ∧ Resolver.formula (.over t ps) b [] = .ok (f, []) ∧
      P fun r => f.eval (SelectPlan.scopeOf { s with parameters := cells } r)) ↔
    m.Binds ticks e ∧ ∃ o, (∀ noted, Resolver.operand (.over t) a noted = .ok (o, noted)) ∧
      P fun r => o.formula.eval (SelectPlan.scopeOf { s with parameters := [] } r) := by
  obtain ⟨c, own, hc, hphrase⟩ := compile_of_tree hn ha
  obtain ⟨b, ps, -, hfilled, hread, -⟩ := hphrase.read
  have hagrees := hfilled.agrees (t := t) (Table.sameColumns_of_bare rfl)
  have hvalues : ∀ {o o' : Operand}, Operand.Same (own.map (boundAs ticks)) o o' →
      (fun r => o.formula.eval
        (SelectPlan.scopeOf { s with parameters := own.map (boundAs ticks) } r)) =
      fun r => o'.formula.eval (SelectPlan.scopeOf { s with parameters := [] } r) :=
    fun hsame => funext fun r => hsame.eval (SelectPlan.scopeOf s r)
  constructor
  · rintro ⟨c', arguments, cells, b', ps', f, hc', hstored, hread', hf, hP⟩
    cases hc.symm.trans hc'
    obtain ⟨hall, rfl⟩ := stored_iff.mp hstored
    have hz := hphrase.noZero hread'
    cases (hread hz).symm.trans hread'
    obtain ⟨o, noted, ho, hpure⟩ := Resolver.of_bind_ok hf
    cases hpure
    obtain ⟨o', ho', hsame⟩ := hagrees.back ho
    exact ⟨⟨c, own, hc, hz, hall⟩, o', ho', hvalues hsame ▸ hP⟩
  · rintro ⟨⟨c', own', hc', hz, hall⟩, o', ho', hP⟩
    cases hc.symm.trans hc'
    obtain ⟨o, ho, hsame⟩ := hagrees.forth (ho' [])
    exact ⟨c, own, _, b, ps, o.formula, hc, stored_iff.mpr ⟨hall, rfl⟩, hread hz,
      Resolver.bind_ok ho, hvalues hsame ▸ hP⟩

/-- An expression says of a row what its tree gives. -/
theorem says_iff_tree (hn : e.namesCallable = true) (ha : m.tree? (boundAs ticks) e = some a) :
    m.Says ticks t s e r value ↔ m.Binds ticks e ∧ a.Gives t s r value :=
  evaluated_iff_tree hn ha fun values => values r = .ok value

theorem toOption_eq_some_iff {α β : Type} {x : Except β α} {a : α} : x.toOption = some a ↔
    x = .ok a := by
  cases x with
  | error fault => exact iff_of_false nofun nofun
  | ok b => exact Option.some_inj.trans ⟨congrArg Except.ok, Except.ok.inj⟩

/-- The value that an expression comes to on a row. -/
def says? (m : Mapping) (ticks : Bool) (t : Table) (s : Scope) (e : Expression) (r : Row) :
    Option Cell := do
  let (c, arguments) ← (m.compile e []).toOption
  let (a, ps) ← (Sql.readScalar c.text).toOption
  let (f, noted) ← (Resolver.formula (.over t ps) a []).toOption
  if (∀ v ∈ arguments, (v.cell? ticks).isSome = true) ∧ noted.isEmpty = true then
    (f.eval (SelectPlan.scopeOf { s with parameters := arguments.map (boundAs ticks) } r)).toOption
  else none

theorem says?_eq_some_iff : m.says? ticks t s e r = some value ↔ m.Says ticks t s e r value := by
  unfold says? Says
  simp only [Option.bind_eq_bind, Option.bind_eq_some_iff, toOption_eq_some_iff, stored_iff,
    Option.ite_none_right_eq_some, List.isEmpty_iff]
  constructor
  · rintro ⟨⟨c, arguments⟩, hc, ⟨a, ps⟩, ha, ⟨f, noted⟩, hf, ⟨hall, rfl⟩, heval⟩
    exact ⟨c, arguments, _, a, ps, f, hc, ⟨hall, rfl⟩, ha, hf, heval⟩
  · rintro ⟨c, arguments, cells, a, ps, f, hc, ⟨hall, rfl⟩, ha, hf, heval⟩
    exact ⟨⟨c, arguments⟩, hc, ⟨a, ps⟩, ha, ⟨f, []⟩, hf, ⟨hall, rfl⟩, heval⟩

/-- Where the tree of an expression resolves, this is so whatever is noted before. -/
theorem resolves_of_tree (hn : e.namesCallable = true) (ha : m.tree? φ e = some a)
    {noted noted' : List Aggregate} {o : Operand}
    (ho : Resolver.operand (.over t) a noted = .ok (o, noted')) :
    ∀ noted, Resolver.operand (.over t) a noted = .ok (o, noted) := by
  obtain ⟨c, own, -, hphrase⟩ := compile_of_tree hn ha
  obtain ⟨b, ps, -, hfilled, -⟩ := hphrase.read
  have hagrees := hfilled.agrees (t := t) (Table.sameColumns_of_bare rfl)
  obtain ⟨o₁, ho₁, -⟩ := hagrees.forth ho
  obtain ⟨o₂, ho₂, -⟩ := hagrees.back ho₁
  cases (ho₂ noted).symm.trans ho
  exact ho₂

/-- The operands of a binary operator resolve on their own. -/
theorem gives_binary_iff {op : Sql.Operator} (hn : e.namesCallable = true)
    (hn' : e'.namesCallable = true) (ha : m.tree? φ e = some a) (ha' : m.tree? φ e' = some a') :
    (Scalar.binary op a a').Gives t s r value ↔ ∃ o o',
      (∀ noted, Resolver.operand (.over t) a noted = .ok (o, noted)) ∧
      (∀ noted, Resolver.operand (.over t) a' noted = .ok (o', noted)) ∧
      (Resolver.binary op o o').formula.eval (SelectPlan.scopeOf { s with parameters := [] } r) =
        .ok value := by
  constructor
  · rintro ⟨p, hp, heval⟩
    obtain ⟨o, n₁, h₁, h⟩ := Resolver.of_bind_ok (hp [])
    obtain ⟨o', n₂, h₂, h⟩ := Resolver.of_bind_ok h
    cases h
    exact ⟨o, o', resolves_of_tree hn ha h₁, resolves_of_tree hn' ha' h₂, heval⟩
  · rintro ⟨o, o', ho, ho', heval⟩
    refine ⟨Resolver.binary op o o', fun noted => ?_, heval⟩
    rw [Resolver.operand]
    exact (Resolver.bind_ok (ho noted)).trans (Resolver.bind_ok (ho' noted))

theorem noZero_operation {op : BinaryOperator} {spelling : String}
    (hs : op.spelling = some spelling) {a b : Compiled} :
    NoZero (Compiled.operation op spelling a b).text ↔ NoZero a.text ∧ NoZero b.text := by
  have hsign : NoZero (Compiled.sign op spelling (a.carriesNull || b.carriesNull)) := by
    cases op <;> cases hs <;> cases a.carriesNull || b.carriesNull <;> decide
  have hopening : NoZero "(" := by decide
  have hclosing : NoZero ")" := by decide
  have hblank : NoZero " " := by decide
  simp [Compiled.operation, Compiled.join, hsign, hopening, hclosing, hblank]

/-- An operation is read to its end and can be bound where this is so of both operands. -/
theorem binds_binary_iff {op : BinaryOperator} {spelling : String}
    (hs : op.spelling = some spelling) :
    m.Binds ticks (.binary op e e') ↔ m.Binds ticks e ∧ m.Binds ticks e' := by
  have hcompile : m.compile (.binary op e e') = (do
      let a ← m.compile e
      let b ← m.compile e'
      return Compiled.operation op spelling a b) := by
    rw [compile, hs]
  constructor
  · rintro ⟨c, own, hc, hz, hall⟩
    rw [hcompile] at hc
    obtain ⟨a, mid, ha, hc⟩ := Compiling.of_bind_ok hc
    obtain ⟨b, after, hb, hc⟩ := Compiling.of_bind_ok hc
    cases hc
    obtain ⟨hza, hzb⟩ := (noZero_operation hs).mp hz
    rcases m.framed_compile e' with ⟨f, hx⟩ | ⟨b', own', -, hx⟩
    · cases hb.symm.trans (hx mid)
    · cases hb.symm.trans (hx mid)
      exact ⟨⟨a, mid, ha, hza, fun v hv => hall v (List.mem_append_left _ hv)⟩,
        ⟨b, own', hx [], hzb, fun v hv => hall v (List.mem_append_right _ hv)⟩⟩
  · rintro ⟨⟨a, own, ha, hza, hall⟩, ⟨b, own', hb, hzb, hall'⟩⟩
    refine ⟨Compiled.operation op spelling a b, own ++ own', ?_, (noZero_operation hs).mpr ⟨hza, hzb⟩,
      fun v hv => (List.mem_append.mp hv).elim (hall v) (hall' v)⟩
    rw [hcompile, Compiling.bind_ok ha, Compiling.bind_ok (compile_behind hb own)]
    rfl

end Mapping

end RecordMapper
