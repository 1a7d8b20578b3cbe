import RecordMapper.Proofs.Binding
import RecordMapper.Proofs.Clauses
import RecordMapper.Proofs.Payloads

/-!
# Compiled texts are read back

A compiled condition is cut into lexemes and read as one scalar, which has the operators of the
expression on their own operands, whatever characters the names of columns have.

1. `Sql.readScalar` reads a text that is one scalar; a phrase without U+0000 is read by it
   (`Sql.Phrase.read`).
2. `Expression.namesCallable`: the calls without a rule of their own have names of functions.
   `Mapping.listsPlaced`: lists stand where a membership test takes its collection, and only there.
3. `Mapping.reads_of_compile`: an expression of this kind that compiles has a tree.
4. `Mapping.reads_back`: its text is read as this tree, the k-th placeholder as the k-th argument,
   if no name in it has a U+0000.
-/

namespace RecordMapper

open Sql (Scalar)

/-! ## Reading one scalar -/

namespace Sql

def readScalar (text : String) : Except SyntaxFault (Scalar × Parameters) :=
  let ls := Lexeme.ofText text
  legally ls do
    let (a, rest) ← Parser.anyScalar ls
    match rest with
    | [] => return (a, Parameters.ofLexemes ls)
    | l :: _ => throw (.near l)

/-- A phrase is read as one scalar with as many parameters as it has values. A zero character,
which only the name of a column may have, leaves this name without its closing quote, and nothing
is read. -/
theorem Phrase.read {text : String} {own : List Cell} {b : Scalar} (h : Phrase text own b) :
    ∃ a ps, ps.count = own.length ∧ Filled ps own a b ∧
    (NoZero text → readScalar text = .ok (a, ps)) ∧
      (¬NoZero text → ∃ fault, readScalar text = .error fault) := by
  obtain ⟨ls, a, hlex, hread, hfilled⟩ := h.reads 0
  refine ⟨a, Parameters.ofLexemes ls, ?_, ?_, fun hz => ?_, fun hz => ?_⟩
  · rw [Parameters.count_ofLexemes hlex.cut.calm, hlex.marks]
  · exact hfilled _ _ (Parameters.bound_ofLexemes hlex.cut.calm hlex.cut.ascending hlex.marks)
  · have htext : Lexeme.ofText text = ls := Scans.whole hz (hlex.cut.scans [] ends_nil)
    have hparse : Parser.anyScalar (ls ++ []) = .ok (a, []) :=
      anyScalar_halt ls (fun fuel hf => hread fuel [] hf Parser.halts_nil.closes) Parser.halts_nil
    rw [List.append_nil] at hparse
    unfold readScalar
    rw [htext]
    refine (legally_of_legal fun l hl => (hlex.cut.calm l hl).legal).trans ?_
    rw [hparse]
    rfl
  · obtain ⟨xs, hscans, -, x, hx, hillegal⟩ := (hlex.cut.spoils hz).illegal
    unfold readScalar
    rw [hscans.ofText]
    exact legally_of_illegal hx hillegal

/-- A phrase that is read has no zero character. -/
theorem Phrase.noZero {text : String} {own : List Cell} {b : Scalar} (h : Phrase text own b)
    {x : Scalar × Parameters} (hx : readScalar text = .ok x) : NoZero text := by
  obtain ⟨-, -, -, -, -, hrefused⟩ := h.read
  by_contra hz
  obtain ⟨fault, hf⟩ := hrefused hz
  cases hf.symm.trans hx

end Sql

/-! ## Names of functions -/

namespace Sql

/-- Whether a name is read as that of a function. -/
def isCallable (name : String) : Bool :=
  isName name && !Parser.reserved.contains (foldCase name) && foldCase name != "cast"

theorem callable_of_isCallable {name : String} (h : isCallable name = true) : Callable name := by
  unfold isCallable at h
  simp only [Bool.and_eq_true, Bool.not_eq_true', bne_iff_ne] at h
  exact ⟨h.1.1, h.1.2, h.2⟩

end Sql

def HostValue.isList : HostValue → Bool
  | list _ => true
  | _ => false

namespace Expression

mutual

/-- Whether each call without a rule of its own has, in lower case, the name of a function. -/
def namesCallable : Expression → Bool
  | .member object _ => object.namesCallable
  | .binary _ left right => left.namesCallable && right.namesCallable
  | .call name arguments =>
    (Emits.calls.contains (name, arguments.length) || Sql.isCallable (lowerCase name))
      && namesCallableEach arguments
  | .method receiver name arguments =>
    (if Emits.methods.contains (name, arguments.length) then receiver.namesCallable
      else Sql.isCallable (lowerCase name)) && namesCallableEach arguments
  | .convert operand _ => operand.namesCallable
  | _ => true

def namesCallableEach : List Expression → Bool
  | [] => true
  | e :: r => e.namesCallable && namesCallableEach r

end

/-! ## Where lists stand -/

/-- The constant that an expression is: itself, a member of another or a conversion of another. -/
def known? : Expression → Option HostValue
  | .constant v => some v
  | .member object name => object.known?.bind (·.member? name)
  | .convert operand target => operand.known?.bind fun
    | .scalar v =>
      if v.isNull then some (.scalar v) else (v.coerce target).toOption.map HostValue.scalar
    | v => some v
  | _ => none

def isList (e : Expression) : Bool := e.known?.any HostValue.isList

end Expression

namespace Mapping

open Expression

/-- The type that an expression is known to have. -/
def typeOf? (m : Mapping) : Expression → Option DataType
  | .member .parameter name => (m.findProperty name).map Column.dataType
  | .convert _ target => some target
  | _ => none

def isText (m : Mapping) (e : Expression) : Bool :=
  ({ text := "", value := e.known?, type := m.typeOf? e } : Compiled).isText

mutual

/-- Whether the collections of membership tests are lists, and no other operands are. -/
def listsPlaced (m : Mapping) : Expression → Bool
  | .member object _ => m.listsPlaced object
  | .binary _ left right =>
    !left.isList && !right.isList && m.listsPlaced left && m.listsPlaced right
  | .call name arguments =>
    (arguments.map isList == if name = "contains" ∧ arguments.length = 2 then [true, false]
      else arguments.map fun _ => false) && m.listsPlacedEach arguments
  | .method receiver name arguments =>
    (arguments.map isList == arguments.map fun _ => false) && m.listsPlacedEach arguments
      && (!Emits.methods.contains (name, arguments.length) || m.listsPlaced receiver
        && (receiver.isList == (name == "contains" && !m.isText receiver)))
  | .convert operand _ => m.listsPlaced operand
  | _ => true

def listsPlacedEach (m : Mapping) : List Expression → Bool
  | [] => true
  | e :: r => m.listsPlaced e && m.listsPlacedEach r

end

end Mapping

/-! ## Steps that succeed -/

namespace Compiling

open Compiled

/-- The step succeeds with some arguments before it. -/
def Succeeds (x : Compiling Compiled) : Prop := ∃ args c after, x args = .ok (c, after)

variable {x : Compiling Compiled} {xs : List (Compiling Compiled)} {args after : List HostValue}
  {c : Compiled}

theorem succeeds_each {cs : List Compiled} (h : each xs args = .ok (cs, after)) :
    ∀ x ∈ xs, Succeeds x := by
  unfold each at h
  induction xs generalizing args after cs with
  | nil =>
    intro x hx
    cases hx
  | cons y ys ih =>
    rw [List.mapM_cons] at h
    obtain ⟨c, mid, hc, h⟩ := of_bind_ok h
    obtain ⟨cs, mid', hcs, -⟩ := of_bind_ok h
    intro x hx
    rcases List.mem_cons.mp hx with rfl | hx
    · exact ⟨_, _, _, hc⟩
    · exact ih hcs x hx

theorem succeeds_function {name : String}
    (h : (do return function name (← each xs)) args = .ok (c, after)) : ∀ x ∈ xs, Succeeds x := by
  obtain ⟨cs, mid, hcs, -⟩ := of_bind_ok h
  exact succeeds_each hcs

theorem succeeds_pair {y : Compiling Compiled} (hx : Succeeds x) (hy : Succeeds y) :
    ∀ z ∈ [x, y], Succeeds z := by
  intro z hz
  rcases List.mem_pair.mp hz with rfl | rfl
  · exact hx
  · exact hy

theorem succeeds_call {name : String} (h : Compiled.call name xs args = .ok (c, after)) :
    ∀ x ∈ xs, Succeeds x := by
  by_cases hmem : (name, xs.length) ∈ Emits.calls
  · simp only [Emits.calls, List.mem_cons, List.not_mem_nil, or_false, Prod.mk.injEq] at hmem
    obtain ⟨rfl, hlen⟩ | ⟨rfl, hlen⟩ := hmem
    · obtain ⟨a, b, rfl⟩ := List.length_eq_two.mp hlen
      obtain ⟨_, _, ha, h⟩ := of_bind_ok h
      obtain ⟨_, _, hb, -⟩ := of_bind_ok h
      exact succeeds_pair ⟨_, _, _, ha⟩ ⟨_, _, _, hb⟩
    · obtain ⟨a, b, rfl⟩ := List.length_eq_two.mp hlen
      obtain ⟨_, _, ha, h⟩ := of_alone_bind h
      obtain ⟨_, _, hb, -⟩ := of_bind_ok h
      exact succeeds_pair ⟨_, _, _, ha⟩ ⟨_, _, _, hb⟩
  · rw [Emits.call_other hmem] at h
    exact succeeds_function h

/-- A call with a receiver that compiles has compiled its arguments, and its receiver where it has a
rule of its own. -/
theorem succeeds_method {name : String} (h : Compiled.method x name xs args = .ok (c, after)) :
    (∀ y ∈ xs, Succeeds y) ∧ ((name, xs.length) ∈ Emits.methods → Succeeds x) := by
  by_cases hmem : (name, xs.length) ∈ Emits.methods
  · have hone : ∀ {y : Compiling Compiled}, Succeeds y → ∀ z ∈ [y], Succeeds z := by
      intro y hy z hz
      rwa [List.mem_singleton.mp hz]
    simp only [Emits.methods, List.mem_cons, List.not_mem_nil, or_false, Prod.mk.injEq,
      List.length_eq_zero_iff, List.length_eq_one_iff] at hmem
    obtain ⟨rfl, y, rfl⟩ | ⟨rfl, y, rfl⟩ | ⟨rfl, y, rfl⟩ | ⟨rfl, y, rfl⟩ | ⟨rfl, rfl⟩ |
      ⟨rfl, rfl⟩ := hmem
    · obtain ⟨a, own, ha, h⟩ := of_alone_bind h
      refine ⟨hone ?_, fun _ => ⟨_, _, _, ha⟩⟩
      dsimp only at h
      split at h
      · rw [modify_bind] at h
        obtain ⟨_, _, hy, -⟩ := of_bind_ok h
        exact ⟨_, _, _, hy⟩
      · obtain ⟨_, _, hy, -⟩ := of_bind_ok h
        exact ⟨_, _, _, hy⟩
    · obtain ⟨_, _, ha, h⟩ := of_bind_ok h
      obtain ⟨_, _, hy, -⟩ := of_bind_ok h
      exact ⟨hone ⟨_, _, _, hy⟩, fun _ => ⟨_, _, _, ha⟩⟩
    · obtain ⟨_, _, ha, h⟩ := of_bind_ok h
      obtain ⟨_, _, hy, -⟩ := of_bind_ok h
      exact ⟨hone ⟨_, _, _, hy⟩, fun _ => ⟨_, _, _, ha⟩⟩
    · obtain ⟨_, _, ha, h⟩ := of_bind_ok h
      obtain ⟨_, _, hy, -⟩ := of_bind_ok h
      exact ⟨hone ⟨_, _, _, hy⟩, fun _ => ⟨_, _, _, ha⟩⟩
    · obtain ⟨_, _, ha, -⟩ := of_bind_ok h
      exact ⟨List.forall_mem_nil _, fun _ => ⟨_, _, _, ha⟩⟩
    · obtain ⟨_, _, ha, -⟩ := of_bind_ok h
      exact ⟨List.forall_mem_nil _, fun _ => ⟨_, _, _, ha⟩⟩
  · rw [Emits.method_other hmem] at h
    exact ⟨succeeds_function h, fun h => absurd h hmem⟩

end Compiling

/-! ## Trees of expressions -/

namespace Reading

/-- The names of the functions that a reading calls. -/
def callees : Reading → List String
  | nothing => []
  | operand a => a.callees
  | enclosed as => Scalar.calleesEach as

theorem callees_of_scalar? {ρ : Reading} {a : Scalar} (h : ρ.scalar? = some a) :
    a.callees = ρ.callees := by
  unfold scalar? at h
  split at h
  · cases h
    rfl
  · cases h
    rw [callees, Scalar.calleesEach, Scalar.calleesEach, List.append_nil]
  · cases h

end Reading

namespace Mapping

open Expression Compiling

variable {m : Mapping} {e e' : Expression} {μ μ' : Meaning}

/-- What is read has the value and the type that the expression is known to have, it is a list just
where the expression is one, and it calls functions only. -/
structure Fits (m : Mapping) (e : Expression) (μ : Meaning) : Prop where
  value : μ.value = e.known?
  type : μ.type = m.typeOf? e
  scalar : e.isList = false → ∃ a, μ.reading.scalar? = some a
  list : e.isList = true → ∃ as, μ.reading.scalars? = some as
  callable : ∀ n ∈ μ.reading.callees, Sql.Callable n

theorem isList_eq_false (h : e.known? = none) : e.isList = false := by
  unfold isList
  rw [h]
  rfl

/-- A form of operands, which has neither a value nor a type. -/
theorem Fits.form {a : Scalar} (hv : e.known? = none) (ht : m.typeOf? e = none)
    (ha : ∀ n ∈ a.callees, Sql.Callable n) : m.Fits e (.form a) where
  value := hv.symm
  type := ht.symm
  scalar _ := ⟨a, rfl⟩
  list h := by
    rw [isList_eq_false hv] at h
    cases h
  callable n hn := ha n (by
    rwa [show (Meaning.form a).reading.callees = a.callees ++ [] from rfl, List.append_nil] at hn)

theorem Fits.isText_eq (h : m.Fits e μ) : μ.isText = m.isText e := by
  unfold Meaning.isText isText Compiled.isText
  rewrite [h.value, h.type]
  cases e.known? with
  | none => rfl
  | some v => cases v <;> rfl

theorem Fits.scalar_callable (h : m.Fits e μ) {a : Scalar} (ha : μ.reading.scalar? = some a) :
    ∀ n ∈ a.callees, Sql.Callable n := by
  rw [Reading.callees_of_scalar? ha]
  exact h.callable

variable {φ : HostValue → Cell}

def total (φ : HostValue → Cell) (v : HostValue) : Option Cell := some (φ v)

theorem value_constant (cell? : HostValue → Option Cell) (v : HostValue) :
    (Meaning.constant cell? v).value = some v := by
  cases v <;> rfl

theorem reading_list (φ : HostValue → Cell) (items : List Value) :
    (Meaning.constant (total φ) (.list items)).reading =
      .enclosed (items.map fun v => .literal (φ (.scalar v))) := by
  have hitems : (items.mapM fun v => Meaning.literal (total φ) (.scalar v)) =
      some (items.map fun v => .literal (φ (.scalar v))) := by
    induction items with
    | nil => rfl
    | cons v r ih =>
      rw [List.mapM_cons, ih]
      rfl
  show ((items.mapM fun v => Meaning.literal (total φ) (.scalar v)).map Reading.enclosed).getD _ = _
  rw [hitems]
  rfl

theorem calleesEach_literals (φ : HostValue → Cell) (items : List Value) :
    Scalar.calleesEach (items.map fun v => .literal (φ (.scalar v))) = [] := by
  induction items with
  | nil => rfl
  | cons v r ih => exact ih

/-- A constant, whatever its values are taken for. -/
theorem Fits.constant {v : HostValue} {t : Option DataType} (hv : e.known? = some v)
    (ht : m.typeOf? e = t) : m.Fits e { Meaning.constant (total φ) v with type := t } := by
  have hlist : e.isList = v.isList := by
    unfold isList
    rw [hv]
    rfl
  have hvalue : (Meaning.constant (total φ) v).value = e.known? :=
    (value_constant _ v).trans hv.symm
  have hone : (Meaning.constant (total φ) v).reading = .operand (.literal (φ v)) →
      v.isList = false → m.Fits e { Meaning.constant (total φ) v with type := t } := by
    intro hr hno
    refine ⟨hvalue, ht.symm, fun _ => ⟨.literal (φ v), by rw [hr]; rfl⟩, fun h => ?_, fun n hn => ?_⟩
    · rw [hlist, hno] at h
      cases h
    · rw [hr] at hn
      cases hn
  cases v with
  | scalar v => exact hone rfl rfl
  | object typeName members => exact hone rfl rfl
  | list items =>
    have hr := reading_list φ items
    refine ⟨hvalue, ht.symm, fun h => ?_, fun _ => ⟨_, by rw [hr]; rfl⟩, fun n hn => ?_⟩
    · rw [hlist] at h
      cases h
    · have hn' : n ∈ (Meaning.constant (total φ) (.list items)).reading.callees := hn
      rw [hr, Reading.callees, calleesEach_literals] at hn'
      cases hn'

/-! ### Nodes -/

theorem scalars_of_fits {es : List Expression} {μs : List Meaning}
    (h : List.Forall₂ (m.Fits) es μs) (hl : es.map isList = es.map fun _ => false) :
    ∃ as, (μs.mapM fun μ => μ.reading.scalar?) = some as ∧
      ∀ n ∈ Scalar.calleesEach as, Sql.Callable n := by
  induction h with
  | nil => exact ⟨[], rfl, nofun⟩
  | cons hμ _ ih =>
    rw [List.map_cons, List.map_cons, List.cons.injEq] at hl
    obtain ⟨a, ha⟩ := hμ.scalar hl.1
    obtain ⟨as, has, hcallable⟩ := ih hl.2
    refine ⟨a :: as, ?_, fun n hn => ?_⟩
    · rw [List.mapM_cons, ha, has]
      rfl
    · exact (List.mem_append.mp hn).elim (hμ.scalar_callable ha n) (hcallable n)

theorem fits_function {name : String} {es : List Expression} {μs : List Meaning}
    (hn : Sql.isCallable (lowerCase name) = true) (hv : e.known? = none) (ht : m.typeOf? e = none)
    (h : List.Forall₂ (m.Fits) es μs) (hl : es.map isList = es.map fun _ => false) :
    ∃ μ, Meaning.function name μs = some μ ∧ m.Fits e μ := by
  obtain ⟨as, has, hcallable⟩ := scalars_of_fits h hl
  refine ⟨{ reading := .operand (.call (lowerCase name) false false as 0) }, ?_, hv.symm, ht.symm,
    fun _ => ⟨_, rfl⟩, fun h => ?_, fun n hn' => ?_⟩
  · unfold Meaning.function
    rw [has]
    rfl
  · rw [isList_eq_false hv] at h
    cases h
  · rcases List.mem_cons.mp hn' with rfl | hn'
    · exact Sql.callable_of_isCallable hn
    · exact hcallable n hn'

theorem fits_like (h : m.Fits e μ) (h' : m.Fits e' μ') (hl : e.isList = false)
    (hl' : e'.isList = false) {pattern : Scalar → Scalar}
    (hp : ∀ b n, n ∈ (pattern b).callees → n ∈ b.callees) {r : Expression} (hv : r.known? = none)
    (ht : m.typeOf? r = none) : ∃ ν, Meaning.like μ μ' pattern = some ν ∧ m.Fits r ν := by
  obtain ⟨a, ha⟩ := h.scalar hl
  obtain ⟨b, hb⟩ := h'.scalar hl'
  refine ⟨_, ?_, .form hv ht (a := .like false a (pattern b) none) fun n hn => ?_⟩
  · unfold Meaning.like
    rw [ha, hb]
    rfl
  · exact (List.mem_append.mp hn).elim (h.scalar_callable ha n) fun hn =>
      h'.scalar_callable hb n (hp b n hn)

theorem fits_inside (h : m.Fits e μ) (h' : m.Fits e' μ') (hl : e.isList = true)
    (hl' : e'.isList = false) {r : Expression} (hv : r.known? = none) (ht : m.typeOf? r = none) :
    ∃ ν, Meaning.inside μ μ' = some ν ∧ m.Fits r ν := by
  obtain ⟨as, has⟩ := h.list hl
  obtain ⟨b, hb⟩ := h'.scalar hl'
  refine ⟨_, ?_, .form hv ht (a := .inList false b as) fun n hn => ?_⟩
  · unfold Meaning.inside
    rw [has, hb]
    rfl
  · rcases List.mem_append.mp hn with hn | hn
    · exact h'.scalar_callable hb n hn
    · have hr : μ.reading = .enclosed as := by
        cases hr : μ.reading with
        | enclosed bs => rw [hr] at has; cases has; rfl
        | _ => rw [hr] at has; cases has
      exact h.callable n (by rw [hr]; exact hn)

theorem fits_operation {op : BinaryOperator} {spelling : String} (hs : op.spelling = some spelling)
    (h : m.Fits e μ) (h' : m.Fits e' μ') (hl : e.isList = false) (hl' : e'.isList = false) :
    ∃ ν, Meaning.operation op μ μ' = some ν ∧ m.Fits (.binary op e e') ν := by
  obtain ⟨a, ha⟩ := h.scalar hl
  obtain ⟨b, hb⟩ := h'.scalar hl'
  obtain ⟨o, ho⟩ : ∃ o, Meaning.operator op (μ.carriesNull || μ'.carriesNull) = some o := by
    cases op <;> first | exact ⟨_, rfl⟩ | cases hs
  refine ⟨_, ?_, .form rfl rfl (a := .binary o a b) fun n hn => ?_⟩
  · unfold Meaning.operation
    rw [ho, ha, hb]
    rfl
  · exact (List.mem_append.mp hn).elim (h.scalar_callable ha n) (h'.scalar_callable hb n)

theorem fits_call {name : String} {es : List Expression} {μs : List Meaning}
    (hn : (Emits.calls.contains (name, es.length) || Sql.isCallable (lowerCase name)) = true)
    (h : List.Forall₂ (m.Fits) es μs)
    (hl : es.map isList = if name = "contains" ∧ es.length = 2 then [true, false]
      else es.map fun _ => false) :
    ∃ μ, Meaning.call name μs = some μ ∧ m.Fits (.call name es) μ := by
  by_cases hmem : (name, es.length) ∈ Emits.calls
  · simp only [Emits.calls, List.mem_cons, List.not_mem_nil, or_false, Prod.mk.injEq] at hmem
    obtain ⟨rfl, hlen⟩ | ⟨rfl, hlen⟩ := hmem
    · obtain ⟨a, b, rfl⟩ := List.length_eq_two.mp hlen
      obtain _ | ⟨ha, _ | ⟨hb, _ | _⟩⟩ := h
      rw [if_neg (by simp)] at hl
      simp only [List.map_cons, List.map_nil, List.cons.injEq, and_true] at hl
      exact fits_like ha hb hl.1 hl.2 (fun _ _ hn => hn) rfl rfl
    · obtain ⟨a, b, rfl⟩ := List.length_eq_two.mp hlen
      obtain _ | ⟨ha, _ | ⟨hb, _ | _⟩⟩ := h
      rw [if_pos ⟨rfl, rfl⟩] at hl
      simp only [List.map_cons, List.map_nil, List.cons.injEq, and_true] at hl
      exact fits_inside ha hb hl.1 hl.2 rfl rfl
  · have hother : ¬(name = "contains" ∧ es.length = 2) := by
      rintro ⟨rfl, hlen⟩
      rw [hlen] at hmem
      exact hmem (by decide)
    rw [if_neg hother] at hl
    have hcallable : Sql.isCallable (lowerCase name) = true := by
      rw [Bool.or_eq_true, List.contains_iff_mem] at hn
      exact hn.resolve_left hmem
    rw [Means.call_other (h.length_eq ▸ hmem)]
    exact fits_function hcallable rfl rfl h hl

theorem fits_wrapped {name : String} (hn : Sql.Callable name) (h : m.Fits e μ)
    (hl : e.isList = false) {r : Expression} (hv : r.known? = none) (ht : m.typeOf? r = none) :
    ∃ ν, (do return Meaning.form (.call name false false [← μ.reading.scalar?] 0)) = some ν ∧
      m.Fits r ν := by
  obtain ⟨a, ha⟩ := h.scalar hl
  refine ⟨_, ?_, .form hv ht (a := .call name false false [a] 0) fun n hmem => ?_⟩
  · rw [ha]
    rfl
  · rcases List.mem_cons.mp hmem with rfl | hmem
    · exact hn
    · rw [Scalar.calleesEach, Scalar.calleesEach, List.append_nil] at hmem
      exact h.scalar_callable ha n hmem

theorem fits_method (receiver : Option Meaning) {name : String} {r : Expression}
    {es : List Expression} {μs : List Meaning} (h : List.Forall₂ (m.Fits) es μs)
    (hl : es.map isList = es.map fun _ => false)
    (hr : (name, es.length) ∈ Emits.methods → ∃ μ, receiver = some μ ∧ m.Fits r μ ∧
      r.isList = (name == "contains" && !m.isText r))
    (hn : (name, es.length) ∉ Emits.methods → Sql.isCallable (lowerCase name) = true) :
    ∃ μ, Meaning.method receiver name μs = some μ ∧ m.Fits (.method r name es) μ := by
  by_cases hmem : (name, es.length) ∈ Emits.methods
  · obtain ⟨μ, rfl, hμ, hlist⟩ := hr hmem
    simp only [Emits.methods, List.mem_cons, List.not_mem_nil, or_false, Prod.mk.injEq,
      List.length_eq_zero_iff, List.length_eq_one_iff] at hmem
    obtain ⟨rfl, e, rfl⟩ | ⟨rfl, e, rfl⟩ | ⟨rfl, e, rfl⟩ | ⟨rfl, e, rfl⟩ | ⟨rfl, rfl⟩ |
      ⟨rfl, rfl⟩ := hmem
    · obtain _ | ⟨he, _ | _⟩ := h
      have hitem : e.isList = false := List.head_eq_of_cons_eq hl
      rw [beq_self_eq_true, Bool.true_and] at hlist
      show ∃ ν, (if μ.isText then _ else _) = some ν ∧ _
      rw [hμ.isText_eq]
      cases ht : m.isText r with
      | true =>
        rw [ht] at hlist
        rw [if_pos rfl]
        exact fits_like hμ he hlist hitem (fun b n hn => by
          simpa [Scalar.callees, Meaning.percent] using hn) rfl rfl
      | false =>
        rw [ht] at hlist
        rw [if_neg (by decide)]
        exact fits_inside hμ he hlist hitem rfl rfl
    · obtain _ | ⟨he, _ | _⟩ := h
      exact fits_like hμ he hlist (List.head_eq_of_cons_eq hl) (fun b n hn => by
        simpa [Scalar.callees, Meaning.percent] using hn) rfl rfl
    · obtain _ | ⟨he, _ | _⟩ := h
      exact fits_like hμ he hlist (List.head_eq_of_cons_eq hl) (fun b n hn => by
        simpa [Scalar.callees, Meaning.percent] using hn) rfl rfl
    · obtain _ | ⟨he, _ | _⟩ := h
      obtain ⟨a, ha⟩ := hμ.scalar hlist
      obtain ⟨b, hb⟩ := he.scalar (List.head_eq_of_cons_eq hl)
      refine ⟨Meaning.form (.binary .eq a b), ?_, .form rfl rfl fun n hn => ?_⟩
      · show (do return Meaning.form (.binary .eq (← μ.reading.scalar?) (← _))) = _
        rw [ha, hb]
        rfl
      · exact (List.mem_append.mp hn).elim (hμ.scalar_callable ha n) (he.scalar_callable hb n)
    · cases h
      exact fits_wrapped Means.callable_lower hμ hlist rfl rfl
    · cases h
      exact fits_wrapped Means.callable_upper hμ hlist rfl rfl
  · rw [Means.method_other (h.length_eq ▸ hmem)]
    exact fits_function (hn hmem) rfl rfl h hl

/-- A conversion that compiles has the value that it is known to be. -/
theorem value_convert {target : DataType} {args after : List HostValue} {a c : Compiled}
    (ha : a.value = e.known?) (hc : a.convert target args = .ok (c, after)) :
    c.value = (Expression.convert e target).known? := by
  obtain ⟨rfl, -, hnull⟩ | ⟨v, v', hv, hnull, hcoerce, rfl, -⟩ := of_convert hc
  · rw [known?, ← ha]
    cases hval : a.value with
    | none => rfl
    | some v =>
      cases v with
      | scalar v =>
        rw [Option.bind_some]
        simp only [hnull v hval, if_true]
      | _ => rfl
  · rw [known?, ← ha, hv, Option.bind_some]
    simp only [hnull, Bool.false_eq_true, if_false, hcoerce]
    rfl

theorem fits_retyped (h : m.Fits e μ) {target : DataType}
    (hv : (Expression.convert e target).known? = e.known?) :
    m.Fits (.convert e target) { μ with type := some target } := by
  have hlist : (Expression.convert e target).isList = e.isList := by
    unfold isList
    rw [hv]
  exact ⟨h.value.trans hv.symm, rfl, fun hl => h.scalar (hlist ▸ hl), fun hl => h.list (hlist ▸ hl),
    h.callable⟩

theorem fits_convert (h : m.Fits e μ) {target : DataType} {args after : List HostValue}
    {a c : Compiled} (ha : a.value = μ.value) (hc : a.convert target args = .ok (c, after)) :
    ∃ ν, μ.convert (total φ) target = some ν ∧ m.Fits (.convert e target) ν := by
  have hvalue := ha.trans h.value
  have hknown := value_convert hvalue hc
  obtain ⟨rfl, -, hnull⟩ | ⟨v, v', hv, hnull, hcoerce, rfl, -⟩ := of_convert hc
  · refine ⟨{ μ with type := some target }, ?_, fits_retyped h (hknown.symm.trans hvalue)⟩
    unfold Meaning.convert
    rw [← ha]
    cases hval : a.value with
    | none => rfl
    | some v =>
      cases v with
      | scalar v => simp only [hnull v hval, if_true]
      | _ => rfl
  · refine ⟨{ Meaning.constant (total φ) (.scalar v') with type := some target }, ?_,
      .constant hknown.symm rfl⟩
    unfold Meaning.convert
    rw [← ha, hv]
    simp only [hnull, Bool.false_eq_true, if_false, hcoerce]
    rfl

theorem Fits.untyped {v : HostValue} (hv : e.known? = some v) (ht : m.typeOf? e = none) :
    m.Fits e (Meaning.constant (total φ) v) := by
  have hfits : m.Fits e { Meaning.constant (total φ) v with type := none } := .constant hv ht
  cases v <;> exact hfits

theorem fits_property {name : String} (hc : Succeeds (m.compile (.member .parameter name))) :
    ∃ μ, m.reads (total φ) (.member .parameter name) = some μ ∧
    m.Fits (.member .parameter name) μ := by
  obtain ⟨args, c, after, hc⟩ := hc
  cases hp : m.findProperty name with
  | none =>
    have hnone : m.compile (.member .parameter name) args = .error
        (.expression (.noMappedMember m.typeName name)) := by
      show (liftM (m.property name) : Compiling Compiled) args = _
      rw [lift_apply]
      unfold property memberColumn
      rw [hp]
      rfl
    rw [hnone] at hc
    cases hc
  | some k =>
    have htype : m.typeOf? (.member .parameter name) = some k.dataType := by
      rw [typeOf?, hp]
      rfl
    refine ⟨{ reading := .operand (.column none k.name true 0), type := some k.dataType }, ?_, rfl,
      htype.symm, fun _ => ⟨_, rfl⟩, fun h => (by cases h), nofun⟩
    rw [reads, hp]
    rfl

theorem fits_hostMember {object : Expression} (ho : object ≠ .parameter) (h : m.Fits object μ)
    {name kind : String} {args after : List HostValue} {a c : Compiled} (ha : a.value = μ.value)
    (hc : a.hostMember name kind args = .ok (c, after)) :
    ∃ ν, μ.hostMember (total φ) name = some ν ∧ m.Fits (.member object name) ν := by
  obtain ⟨t, ms, v, hobject, hv, -⟩ := of_hostMember hc
  have hvalue : μ.value = some (.object t ms) := ha.symm.trans hobject
  have hknown : (Expression.member object name).known? = some v := by
    rw [known?, ← h.value, hvalue]
    exact hv
  have htype : m.typeOf? (.member object name) = none := by
    cases object with
    | parameter => exact absurd rfl ho
    | _ => rfl
  refine ⟨Meaning.constant (total φ) v, ?_, .untyped hknown htype⟩
  unfold Meaning.hostMember
  rw [hvalue]
  simp only [hv, Option.map_some]

/-! ### Expressions -/

theorem length_compileEach (m : Mapping) (es : List Expression) :
    (m.compileEach es).length = es.length := by
  induction es with
  | nil => rfl
  | cons e r ih => exact congrArg (· + 1) ih

mutual

/-- An expression that compiles has a tree, whatever its values are taken for. -/
theorem reads_of_compile (m : Mapping) (φ : HostValue → Cell) : (e : Expression) →
    e.namesCallable = true → m.listsPlaced e = true → Succeeds (m.compile e) →
    ∃ μ, m.reads (total φ) e = some μ ∧ m.Fits e μ
  | .constant v, _, _, _ => ⟨_, rfl, .untyped rfl rfl⟩
  | .member object name, hn, hl, hc => by
    by_cases ho : object = .parameter
    · subst ho
      exact fits_property hc
    · obtain ⟨args, c, after, hc⟩ := hc
      rw [compile_member ho] at hc
      obtain ⟨a, mid, ha, hc⟩ := of_bind_ok hc
      obtain ⟨μ, hμ, hfits⟩ := m.reads_of_compile φ object hn hl ⟨_, _, _, ha⟩
      obtain ⟨d, new, happly, hval, -⟩ := m.means_compile object hμ
      rw [happly] at ha
      cases ha
      obtain ⟨ν, hν, hfitsν⟩ := fits_hostMember (φ := φ) ho hfits hval hc
      refine ⟨ν, ?_, hfitsν⟩
      rw [reads_member ho, hμ, Option.bind_some]
      exact hν
  | .binary op left right, hn, hl, hc => by
    obtain ⟨args, c, after, hc⟩ := hc
    rw [namesCallable, Bool.and_eq_true] at hn
    simp only [listsPlaced, Bool.and_eq_true, Bool.not_eq_true'] at hl
    obtain ⟨⟨⟨hleft, hright⟩, hl⟩, hr⟩ := hl
    rw [compile] at hc
    cases hs : op.spelling with
    | none =>
      rw [hs] at hc
      cases hc
    | some spelling =>
      rw [hs] at hc
      obtain ⟨a, _, ha, hc⟩ := of_bind_ok hc
      obtain ⟨b, _, hb, -⟩ := of_bind_ok hc
      obtain ⟨μ, hμ, hfits⟩ := m.reads_of_compile φ left hn.1 hl ⟨_, _, _, ha⟩
      obtain ⟨μ', hμ', hfits'⟩ := m.reads_of_compile φ right hn.2 hr ⟨_, _, _, hb⟩
      obtain ⟨ν, hν, hfitsν⟩ := fits_operation hs hfits hfits' hleft hright
      refine ⟨ν, ?_, hfitsν⟩
      rw [reads, hμ, hμ']
      exact hν
  | .call name arguments, hn, hl, hc => by
    obtain ⟨args, c, after, hc⟩ := hc
    rw [namesCallable, Bool.and_eq_true] at hn
    rw [listsPlaced, Bool.and_eq_true, beq_iff_eq] at hl
    obtain ⟨μs, hμs, hall⟩ := m.readsEach_of_compile φ arguments hn.2 hl.2 (succeeds_call hc)
    obtain ⟨ν, hν, hfits⟩ := fits_call hn.1 hall hl.1
    refine ⟨ν, ?_, hfits⟩
    rw [reads, hμs]
    exact hν
  | .method receiver name arguments, hn, hl, hc => by
    obtain ⟨args, c, after, hc⟩ := hc
    rw [namesCallable, Bool.and_eq_true] at hn
    simp only [listsPlaced, Bool.and_eq_true, beq_iff_eq] at hl
    obtain ⟨hargs, hreceiver⟩ := succeeds_method hc
    obtain ⟨μs, hμs, hall⟩ := m.readsEach_of_compile φ arguments hn.2 hl.1.2 hargs
    rw [length_compileEach] at hreceiver
    obtain ⟨ν, hν, hfits⟩ := fits_method (m.reads (total φ) receiver) hall hl.1.1
      (fun hmem => by
        have hcontains : Emits.methods.contains (name, arguments.length) = true :=
          List.contains_iff_mem.mpr hmem
        simp only [hcontains, if_true, Bool.not_true, Bool.false_or, Bool.and_eq_true,
          beq_iff_eq] at hn hl
        obtain ⟨μ, hμ, hfits⟩ := m.reads_of_compile φ receiver hn.1 hl.2.1 (hreceiver hmem)
        exact ⟨μ, hμ, hfits, hl.2.2⟩)
      (fun hmem => by
        have hcontains : Emits.methods.contains (name, arguments.length) = false := by
          rw [Bool.eq_false_iff]
          exact fun h => hmem (List.contains_iff_mem.mp h)
        simpa only [hcontains, Bool.false_eq_true, if_false] using hn.1)
    refine ⟨ν, ?_, hfits⟩
    rw [reads, hμs]
    exact hν
  | .convert operand target, hn, hl, hc => by
    obtain ⟨args, c, after, hc⟩ := hc
    obtain ⟨a, mid, ha, hc⟩ := of_bind_ok hc
    obtain ⟨μ, hμ, hfits⟩ := m.reads_of_compile φ operand hn hl ⟨_, _, _, ha⟩
    obtain ⟨d, new, happly, hval, -⟩ := m.means_compile operand hμ
    rw [happly] at ha
    cases ha
    obtain ⟨ν, hν, hfitsν⟩ := fits_convert (φ := φ) hfits hval hc
    refine ⟨ν, ?_, hfitsν⟩
    rw [reads, hμ]
    exact hν
  | .parameter, _, _, ⟨_, _, _, hc⟩ => nomatch hc
  | .unary _ _, _, _, ⟨_, _, _, hc⟩ => nomatch hc
  | .conditional _ _ _, _, _, ⟨_, _, _, hc⟩ => nomatch hc

theorem readsEach_of_compile (m : Mapping) (φ : HostValue → Cell) : (es : List Expression) →
    namesCallableEach es = true → m.listsPlacedEach es = true →
    (∀ x ∈ m.compileEach es, Succeeds x) →
    ∃ μs, m.readsEach (total φ) es = some μs ∧ List.Forall₂ (m.Fits) es μs
  | [], _, _, _ => ⟨[], rfl, .nil⟩
  | e :: r, hn, hl, hc => by
    rw [namesCallableEach, Bool.and_eq_true] at hn
    rw [listsPlacedEach, Bool.and_eq_true] at hl
    obtain ⟨μ, hμ, hfits⟩ := m.reads_of_compile φ e hn.1 hl.1 (hc _ List.mem_cons_self)
    obtain ⟨μs, hμs, hall⟩ := m.readsEach_of_compile φ r hn.2 hl.2 fun x hx =>
      hc x (List.mem_cons_of_mem _ hx)
    refine ⟨μ :: μs, ?_, .cons hfits hall⟩
    rw [readsEach, hμ, hμs]
    rfl

end

theorem given_total {values : List HostValue} {cells : List Cell}
    (h : Given (total φ) values cells) :
    cells = values.map φ := by
  induction h with
  | nil => rfl
  | cons hv _ ih => rw [List.map_cons, ih, Option.some.inj hv]

/-- **Compiled text is read back without ambiguity.** Take an expression that compiles, where every
call without a rule of its own has the name of a function and lists stand as the collections of
membership tests only. It has a tree, and its text is read just where no column of the tree has a
zero character in its name: as one scalar with one parameter for each argument. The scalar has
exactly the operators, the names of columns and the functions of the tree, and each parameter stands
where the tree has the value that was appended for it. -/
theorem reads_back (m : Mapping) {e : Expression} (hn : e.namesCallable = true)
    (hp : m.listsPlaced e = true) (hl : e.isList = false) {args after : List HostValue}
    {c : Compiled} (h : m.compile e args = .ok (c, after)) :
    ∃ new, after = args ++ new ∧ ∀ φ : HostValue → Cell, ∃ tree,
      ((m.reads (total φ) e).bind fun μ => μ.reading.scalar?) = some tree ∧
      ((∀ name ∈ tree.columns, NoZero name) → ∃ a ps, Sql.readScalar c.text = .ok (a, ps) ∧
        ps.count = new.length ∧ Sql.Filled ps (new.map φ) a tree) ∧
      ∀ name ∈ tree.columns, ¬NoZero name → ∃ fault, Sql.readScalar c.text = .error fault := by
  have hread : ∀ φ : HostValue → Cell, ∃ new, after = args ++ new ∧ ∃ tree,
      ((m.reads (total φ) e).bind fun μ => μ.reading.scalar?) = some tree ∧
        Sql.Phrase c.text (new.map φ) tree := by
    intro φ
    obtain ⟨μ, hμ, hfits⟩ := m.reads_of_compile φ e hn hp ⟨args, c, after, h⟩
    obtain ⟨tree, htree⟩ := hfits.scalar hl
    obtain ⟨d, new, happly, -, -, -, hof⟩ := m.means_compile e hμ
    rw [happly] at h
    cases h
    obtain ⟨own, hgiven, hphrase⟩ := hof.phrase htree (hfits.scalar_callable htree)
    exact ⟨new, rfl, tree, by rw [hμ]; exact htree, given_total hgiven ▸ hphrase⟩
  obtain ⟨new, hafter, -⟩ := hread fun _ => .null
  refine ⟨new, hafter, fun φ => ?_⟩
  obtain ⟨new', hafter', tree, htree, hphrase⟩ := hread φ
  obtain rfl := List.append_cancel_left (hafter.symm.trans hafter')
  obtain ⟨a, ps, hcount, hfilled, hok, hrefused⟩ := hphrase.read
  refine ⟨tree, htree, fun hz => ⟨a, ps, hok (hphrase.spells.mpr hz), ?_, hfilled⟩,
    fun name hmem hz => ?_⟩
  · rw [hcount, List.length_map]
  · exact hrefused fun hwhole => hz (hphrase.spells.mp hwhole name hmem)

/-- A column with a quote and a placeholder in its name, between operators that bind looser and
tighter than those around them. -/
theorem reads_back_quoted :
    let m : Mapping := { (default : Mapping) with columns := [⟨"Size", "a\" or ?(", ⟨.plain .int64, false⟩,
      false, none, none, false, false, false, [], 0⟩] }
    let e : Expression := .binary .bitAnd (.binary .or (.property "Size") (.call "ABS" [.property "Size"]))
      (.isIn (.property "Size") [.int 1, .int 2])
    e.namesCallable = true ∧ m.listsPlaced e = true ∧ e.isList = false ∧
      ∃ c after, m.compile e [] = .ok (c, after) ∧ ∃ new, after = [] ++ new ∧
        ∀ φ : HostValue → Cell, ∃ tree a ps,
          ((m.reads (total φ) e).bind fun μ => μ.reading.scalar?) = some tree ∧
            Sql.readScalar c.text = .ok (a, ps) ∧ ps.count = new.length ∧
              Sql.Filled ps (new.map φ) a tree := by
  intro m e
  have hn : e.namesCallable = true := by decide +kernel
  have hp : m.listsPlaced e = true := by decide +kernel
  refine ⟨hn, hp, rfl, _, _, rfl, ?_⟩
  obtain ⟨new, hafter, hread⟩ := m.reads_back hn hp rfl rfl
  refine ⟨new, hafter, fun φ => ?_⟩
  obtain ⟨tree, htree, hok, -⟩ := hread φ
  have hcolumns : tree.columns = ["a\" or ?(", "a\" or ?(", "a\" or ?("] := by
    cases htree
    rfl
  have hplain : NoZero "a\" or ?(" := by decide
  obtain ⟨a, ps, ha, hcount, hfilled⟩ := hok (by simp [hcolumns, hplain])
  exact ⟨tree, a, ps, htree, ha, hcount, hfilled⟩

/-- A text is not always read back: the name of a column may have a zero character. -/
theorem not_always_reads_back : ¬∀ (m : Mapping) (e : Expression), e.namesCallable = true →
    m.listsPlaced e = true → e.isList = false → ∀ args c after, m.compile e args = .ok (c, after) →
      ∃ a ps, Sql.readScalar c.text = .ok (a, ps) := by
  intro hall
  let m : Mapping := { (default : Mapping) with columns := [⟨"Size", "a\x00b", ⟨.plain .int64, false⟩,
    false, none, none, false, false, false, [], 0⟩] }
  have hrefused : (Sql.readScalar "\"a\x00b\"").toBool = false := by decide +kernel
  obtain ⟨a, ps, hread⟩ : ∃ a ps, Sql.readScalar "\"a\x00b\"" = .ok (a, ps) :=
    hall m (.property "Size") rfl rfl rfl [] ⟨"\"a\x00b\"", none, some .int64⟩ [] rfl
  rw [hread] at hrefused
  cases hrefused

end Mapping

end RecordMapper
