import RecordMapper.Codec
import RecordMapper.Proofs.Compilation
import RecordMapper.Proofs.Phrases

/-!
# What compiled expressions mean

An expression over a mapped record stands for a scalar over the columns of the table, in which every
constant is the cell that it is bound as.

1. `Mapping.reads`: the operators, names and constants of an expression, without texts and without
   arguments. `Mapping.mean` has the constants as the storage holds them.
2. `Mapping.means_compile`: an expression with a meaning compiles, to a text that is read as its
   meaning once the arguments are bound.
-/

namespace RecordMapper

open Sql (Scalar)

/-! ## Meanings -/

/-- How a text is read: not at all, as an operand, or as scalars in parentheses. -/
inductive Reading
  | nothing
  | operand (a : Scalar)
  | enclosed (as : List Scalar)

namespace Reading

/-- The scalar that is read; one in parentheses is a scalar too. -/
def scalar? : Reading → Option Scalar
  | operand a => some a
  | enclosed [a] => some a
  | _ => none

/-- The scalars in parentheses, as a membership test takes them. -/
def scalars? : Reading → Option (List Scalar)
  | enclosed as => some as
  | _ => none

end Reading

/-- What an expression stands for, with the value and the type that the nodes around it look at. -/
structure Meaning where
  reading : Reading
  value : Option HostValue := none
  type : Option DataType := none

namespace Meaning

def carriesNull (μ : Meaning) : Bool := μ.value.any HostValue.isNull

def isText (μ : Meaning) : Bool :=
  μ.type.any DataType.isText
    || match μ.value with
      | some (.scalar v) => v.isText
      | _ => false

def literal (cell? : HostValue → Option Cell) (v : HostValue) : Option Scalar :=
  (cell? v).map .literal

/-- A constant: literals in parentheses for a list, and one literal otherwise. -/
def constant (cell? : HostValue → Option Cell) : HostValue → Meaning
  | .list items =>
    { reading := ((items.mapM fun v => literal cell? (.scalar v)).map .enclosed).getD .nothing
      value := some (.list items) }
  | v => { reading := ((literal cell? v).map .operand).getD .nothing, value := some v }

/-- A condition or a function of operands, in parentheses. -/
def form (a : Scalar) : Meaning := { reading := .enclosed [a] }

/-- The operator of a statement; equality with null has its own. -/
def operator : BinaryOperator → Bool → Option Sql.Operator
  | .eq, null => some (if null then .is else .eq)
  | .ne, null => some (if null then .isNot else .ne)
  | .gt, _ => some .gt
  | .ge, _ => some .ge
  | .lt, _ => some .lt
  | .le, _ => some .le
  | .bitAnd, _ => some .bitAnd
  | .and, _ => some .and
  | .bitOr, _ => some .bitOr
  | .or, _ => some .or
  | _, _ => none

def operation (op : BinaryOperator) (a b : Meaning) : Option Meaning := do
  let o ← operator op (a.carriesNull || b.carriesNull)
  return form (.binary o (← a.reading.scalar?) (← b.reading.scalar?))

def like (a b : Meaning) (pattern : Scalar → Scalar) : Option Meaning := do
  return form (.like false (← a.reading.scalar?) (pattern (← b.reading.scalar?)) none)

/-- A membership test. -/
def inside (collection item : Meaning) : Option Meaning := do
  return form (.inList false (← item.reading.scalar?) (← collection.reading.scalars?))

/-- The sign that stands for any characters. -/
def percent : Scalar := .literal (.text "%")

def function (name : String) (arguments : List Meaning) : Option Meaning := do
  let as ← arguments.mapM fun μ => μ.reading.scalar?
  return { reading := .operand (.call (lowerCase name) false false as 0) }

def call (name : String) (arguments : List Meaning) : Option Meaning :=
  match name, arguments with
  | "like", [a, b] => like a b id
  | "contains", [collection, item] => inside collection item
  | name, arguments => function name arguments

/-- A call with a receiver. A function without a rule of its own ignores the receiver. -/
def method (receiver : Option Meaning) (name : String) (arguments : List Meaning) :
    Option Meaning :=
  match name, arguments with
  | "contains", [item] => do
    let receiver ← receiver
    if receiver.isText then
      like receiver item fun b => .binary .concat (.binary .concat percent b) percent
    else inside receiver item
  | "starts_with", [head] => do like (← receiver) head fun b => .binary .concat b percent
  | "ends_with", [tail] => do like (← receiver) tail fun b => .binary .concat percent b
  | "equals", [other] => do
    return form (.binary .eq (← (← receiver).reading.scalar?) (← other.reading.scalar?))
  | "to_lower", [] => do
    return form (.call "lower" false false [← (← receiver).reading.scalar?] 0)
  | "to_upper", [] => do
    return form (.call "upper" false false [← (← receiver).reading.scalar?] 0)
  | name, arguments => function name arguments

/-- A conversion: a constant is coerced, and anything else only gets a type. -/
def convert (cell? : HostValue → Option Cell) (μ : Meaning) (target : DataType) : Option Meaning :=
  match μ.value with
  | some (.scalar v) =>
    if v.isNull then some { μ with type := some target }
    else (v.coerce target).toOption.map fun v' =>
      { constant cell? (.scalar v') with type := some target }
  | _ => some { μ with type := some target }

def hostMember (cell? : HostValue → Option Cell) (μ : Meaning) (name : String) : Option Meaning :=
  match μ.value with
  | some (.object typeName members) =>
    ((HostValue.object typeName members).member? name).map (constant cell?)
  | _ => none

end Meaning

namespace Mapping

mutual

/-- What an expression over records of the mapping is read as, when its values are bound as the
cells that a function gives. -/
def reads (m : Mapping) (cell? : HostValue → Option Cell) : Expression → Option Meaning
  | .constant v => some (.constant cell? v)
  | .member .parameter name => (m.findProperty name).map fun c =>
    { reading := .operand (.column none c.name true 0), type := some c.dataType }
  | .member object name => do (← m.reads cell? object).hostMember cell? name
  | .binary op left right => do Meaning.operation op (← m.reads cell? left) (← m.reads cell? right)
  | .call name arguments => do Meaning.call name (← m.readsEach cell? arguments)
  | .method receiver name arguments => do
    Meaning.method (m.reads cell? receiver) name (← m.readsEach cell? arguments)
  | .convert operand target => do (← m.reads cell? operand).convert cell? target
  | _ => none

def readsEach (m : Mapping) (cell? : HostValue → Option Cell) :
    List Expression → Option (List Meaning)
  | [] => some []
  | e :: r => do return (← m.reads cell? e) :: (← m.readsEach cell? r)

end

end Mapping

/-- The cell that a value is bound as; an object is bound as none. -/
def HostValue.cell? (ticks : Bool) (v : HostValue) : Option Cell :=
  ((v.toCell ticks).map Cell.bound).toOption

/-- What an expression over records of the mapping stands for. -/
def Mapping.mean (m : Mapping) (ticks : Bool) : Expression → Option Meaning :=
  m.reads (HostValue.cell? ticks)

/-! ## Functions that are called -/

namespace Sql.Scalar

mutual

/-- The names of the functions that a scalar calls. -/
def callees : Scalar → List String
  | .binary _ a b => a.callees ++ b.callees
  | .like _ a pattern _ => a.callees ++ pattern.callees
  | .inList _ a items => a.callees ++ calleesEach items
  | .call name _ _ arguments _ => name :: calleesEach arguments
  | _ => []

def calleesEach : List Scalar → List String
  | [] => []
  | a :: r => a.callees ++ calleesEach r

end

end Sql.Scalar

/-! ### Names of functions -/

section Names

open Sql Lexeme

theorem continuesName_of_toLower {c : Char} (h : continuesName c.toLower = true) :
    continuesName c = true := by
  unfold Char.toLower at h
  split at h
  · rename_i hc
    have halpha : c.isAlpha = true := Bool.or_eq_true_iff.mpr (.inl (decide_eq_true hc))
    simp [continuesName, isLetter, halpha]
  · exact h

theorem isLetter_of_toLower {c : Char} (h : isLetter c.toLower = true) : isLetter c = true := by
  unfold Char.toLower at h
  split at h
  · rename_i hc
    have halpha : c.isAlpha = true := Bool.or_eq_true_iff.mpr (.inl (decide_eq_true hc))
    simp [isLetter, halpha]
  · exact h

/-- What is a word in lower case is one as it is written. -/
theorem isName_of_foldCase {w : String} (h : isName (foldCase w) = true) : isName w = true := by
  obtain ⟨c, cs, hcs, hc, hall⟩ := isName_iff.mp h
  unfold foldCase at hcs
  rw [String.toList_ofList] at hcs
  obtain ⟨d, ds, hw, rfl, rfl⟩ := List.map_eq_cons_iff.mp hcs
  exact isName_iff.mpr ⟨d, ds, hw, isLetter_of_toLower hc, fun e he =>
    continuesName_of_toLower (hall _ (List.mem_map_of_mem he))⟩

theorem callable_of_admits {name : String} {k : Nat} {b : Bool}
    (h : Function.admits name k = some b) : Callable name := by
  have hnames : ∀ n ∈ Function.signatures.map Prod.fst ++ Function.aggregates.map Prod.fst,
      isName n = true ∧ Parser.reserved.contains n = false ∧ n ≠ "cast" := by decide +kernel
  have hmem : foldCase name ∈
      Function.signatures.map Prod.fst ++ Function.aggregates.map Prod.fst := by
    unfold Function.admits at h
    split at h
    · rename_i low high hfind
      have hname := List.find?_some hfind
      rw [beq_iff_eq] at hname
      exact List.mem_append_left _ (hname ▸ List.mem_map_of_mem (List.mem_of_find?_eq_some hfind))
    · split at h
      · rename_i hany
        obtain ⟨p, hp, hname⟩ := List.any_eq_true.mp hany
        rw [beq_iff_eq] at hname
        exact List.mem_append_right _ (hname ▸ List.mem_map_of_mem hp)
      · cases h
  obtain ⟨h₁, h₂, h₃⟩ := hnames _ hmem
  exact ⟨isName_of_foldCase h₁, h₂, h₃⟩

end Names

namespace Resolver

open Sql.Scalar

variable {t : Table} {parameters : Sql.Parameters} {noted noted' : List Aggregate}

theorem admits_of_call_ok {name : String} {distinct star : Bool} {os : List Operand} {offset : Nat}
    {o : Operand}
    (h : call (.over t parameters) name distinct star os offset noted = .ok (o, noted')) :
    Function.admits name os.length = some true := by
  unfold call at h
  split at h
  · cases h
  · split at h
    · cases h0 : Function.admits name 0 <;> simp only [h0] at h <;> cases h
    · cases hk : Function.admits name os.length with
      | none =>
        simp only [hk] at h
        cases h
      | some admitted =>
        cases admitted with
        | false =>
          simp only [hk] at h
          cases h
        | true => rfl

mutual

/-- A scalar that resolves calls only functions of the engine. -/
theorem callable_of_operand {noted noted' : List Aggregate} : (a : Scalar) → {o : Operand} →
    operand (.over t) a noted = .ok (o, noted') → ∀ n ∈ a.callees, Sql.Callable n
  | .binary _ a b, _, h, n, hn => by
    obtain ⟨_, _, h₁, h⟩ := of_bind_ok h
    obtain ⟨_, _, h₂, -⟩ := of_bind_ok h
    exact (List.mem_append.mp hn).elim (callable_of_operand a h₁ n) (callable_of_operand b h₂ n)
  | .like _ a pattern none, _, h, n, hn => by
    obtain ⟨_, _, h₁, h⟩ := of_bind_ok h
    obtain ⟨_, _, h₂, -⟩ := of_bind_ok h
    exact (List.mem_append.mp hn).elim (callable_of_operand a h₁ n)
      (callable_of_operand pattern h₂ n)
  | .like _ a pattern (some _), _, h, n, hn => by
    obtain ⟨_, _, h₁, h⟩ := of_bind_ok h
    obtain ⟨_, _, h₂, -⟩ := of_bind_ok h
    exact (List.mem_append.mp hn).elim (callable_of_operand a h₁ n)
      (callable_of_operand pattern h₂ n)
  | .inList _ a items, _, h, n, hn => by
    obtain ⟨_, _, h₁, h⟩ := of_bind_ok h
    obtain ⟨_, _, h₂, -⟩ := of_bind_ok h
    exact (List.mem_append.mp hn).elim (callable_of_operand a h₁ n)
      (callable_of_operands items h₂ n)
  | .call name distinct star arguments offset, _, h, n, hn => by
    have hinner : (if Function.isAggregate name arguments.length then
        { Naming.over t with aggregates := false } else Naming.over t) = Naming.over t := by
      split <;> rfl
    obtain ⟨_, _, h₁, h⟩ := of_bind_ok h
    rw [hinner] at h₁
    rcases List.mem_cons.mp hn with rfl | hn
    · exact callable_of_admits (admits_of_call_ok h)
    · exact callable_of_operands arguments h₁ n hn
  | .literal _, _, _, _, hn | .parameter _, _, _, _, hn | .column .., _, _, _, hn
  | .negate .., _, _, _, hn | .collate .., _, _, _, hn | .isNull .., _, _, _, hn
  | .between .., _, _, _, hn | .inTable .., _, _, _, hn | .cast .., _, _, _, hn
  | .cases .., _, _, _, hn | .row .., _, _, _, hn => nomatch hn

theorem callable_of_operands {noted noted' : List Aggregate} : (as : List Scalar) →
    {os : List Operand} → operands (.over t) as noted = .ok (os, noted') →
    ∀ n ∈ calleesEach as, Sql.Callable n
  | [], _, _, _, hn => nomatch hn
  | a :: r, _, h, n, hn => by
    obtain ⟨_, _, h₁, h⟩ := of_bind_ok h
    obtain ⟨_, _, h₂, -⟩ := of_bind_ok h
    exact (List.mem_append.mp hn).elim (callable_of_operand a h₁ n) (callable_of_operands r h₂ n)

end

end Resolver

/-! ## Texts that are read as a meaning -/

/-- The cells that arguments are bound as. -/
def Stored (ticks : Bool) : List HostValue → List Cell → Prop :=
  List.Forall₂ fun v c => (v.toCell ticks).map Cell.bound = .ok c

/-- The cells that a function gives for arguments. -/
def Given (cell? : HostValue → Option Cell) : List HostValue → List Cell → Prop :=
  List.Forall₂ fun v c => cell? v = some c

theorem Given.stored {ticks : Bool} {new : List HostValue} {own : List Cell}
    (h : Given (HostValue.cell? ticks) new own) : Stored ticks new own := by
  refine h.imp fun v c hc => ?_
  unfold HostValue.cell? at hc
  cases hv : (v.toCell ticks).map Cell.bound with
  | error fault =>
    rw [hv] at hc
    cases hc
  | ok d =>
    rw [hv] at hc
    exact congrArg Except.ok (Option.some.inj hc)

namespace Sql

variable {text inner : String} {own own' : List Cell} {b : Scalar} {bs : List Scalar}

/-- Scalars with commas between them, or nothing. -/
def Listed (inner : String) (own : List Cell) : List Scalar → Prop
  | [] => inner = "" ∧ own = []
  | b :: bs => Items inner own (b :: bs)

theorem Listed.intercalate {pieces : List (String × List Cell × Scalar)}
    (h : ∀ p ∈ pieces, Phrase p.1 p.2.1 p.2.2) :
    Listed (",".intercalate (pieces.map fun p => p.1)) (pieces.flatMap fun p => p.2.1)
      (pieces.map fun p => p.2.2) := by
  induction pieces with
  | nil => exact ⟨rfl, rfl⟩
  | cons p r ih =>
    have hp := h p List.mem_cons_self
    have hr := ih fun q hq => h q (List.mem_cons_of_mem _ hq)
    cases r with
    | nil =>
      rw [List.map_singleton, List.flatMap_singleton, String.intercalate_singleton]
      exact .single hp
    | cons q r =>
      rw [List.map_cons, List.map_cons, List.flatMap_cons, String.intercalate_cons_cons,
        String.append_assoc]
      exact .cons hp hr

theorem Listed.inside (hs : Listed inner own' bs) (ha : Phrase text own b) :
    Items (text ++ (" in " ++ ("(" ++ (inner ++ ")")))) (own ++ own') [.inList false b bs] := by
  cases bs with
  | nil =>
    obtain ⟨rfl, rfl⟩ := hs
    rw [List.append_nil]
    exact .inside_nil ha
  | cons b' bs => exact .inside ha hs

theorem Listed.call {name : String} (hn : Callable name) (hs : Listed inner own bs) :
    Phrase (name ++ ("(" ++ (inner ++ ")"))) own (.call name false false bs 0) := by
  cases bs with
  | nil =>
    obtain ⟨rfl, rfl⟩ := hs
    exact .call_nil hn
  | cons b' bs => exact .call hn hs

end Sql

/-- A text with its arguments is read as a reading says, whatever stands around it. -/
def Reading.Of (cell? : HostValue → Option Cell) (text : String) (new : List HostValue) :
    Reading → Prop
  | .nothing => True
  | .operand a => (∀ n ∈ a.callees, Sql.Callable n) →
    ∃ own, Given cell? new own ∧ Sql.Phrase text own a
  | .enclosed as => (∀ n ∈ Scalar.calleesEach as, Sql.Callable n) →
    ∃ inner own, text = "(" ++ (inner ++ ")") ∧ Given cell? new own ∧ Sql.Listed inner own as

/-- The step appends the same arguments whatever stands before them, and its text with these
arguments is read as the meaning says. Where it has a value, this is what it has appended. -/
def Means (cell? : HostValue → Option Cell) (x : Compiling Compiled) (μ : Meaning) : Prop :=
  ∃ c new, (∀ args, x args = .ok (c, args ++ new)) ∧ c.value = μ.value ∧ c.type = μ.type ∧
    (∀ v, c.value = some v → new = v.elements ∧ c.text = Compiled.placed (fun _ => "?") v) ∧
    μ.reading.Of cell? c.text new

section Reads

variable {cell? : HostValue → Option Cell} {text text' : String} {new new' : List HostValue}
  {ρ ρ' : Reading} {a b : Scalar}

/-- A text that is read as a scalar is a phrase. -/
theorem Reading.Of.phrase (h : ρ.Of cell? text new) (ha : ρ.scalar? = some a)
    (hn : ∀ n ∈ a.callees, Sql.Callable n) :
    ∃ own, Given cell? new own ∧ Sql.Phrase text own a := by
  unfold Reading.scalar? at ha
  split at ha
  · cases ha
    exact h hn
  · cases ha
    obtain ⟨inner, own, rfl, hs, hitems⟩ := h fun n hmem => hn n (by
      rwa [Scalar.calleesEach, Scalar.calleesEach, List.append_nil] at hmem)
    exact ⟨own, hs, .enclosed hitems⟩
  · cases ha

/-- A text between parentheses that is read as a form. -/
theorem Reading.Of.form (h : (∀ n ∈ a.callees, Sql.Callable n) → ∃ inner own,
      text = "(" ++ (inner ++ ")") ∧ Given cell? new own ∧ Sql.Items inner own [a]) :
    (Meaning.form a).reading.Of cell? text new := fun hn =>
  h fun n hmem => hn n (by rwa [Scalar.calleesEach, Scalar.calleesEach, List.append_nil])

theorem Given.append {own own' : List Cell} (h : Given cell? new own)
    (h' : Given cell? new' own') : Given cell? (new ++ new') (own ++ own') := List.rel_append h h'

end Reads

namespace Means

open Compiled Compiling Meaning

variable {cell? : HostValue → Option Cell} {x x' : Compiling Compiled} {μ μ' : Meaning}

theorem congr {y : Compiling Compiled} (h : Means cell? x μ) (hy : ∀ args, y args = x args) :
    Means cell? y μ := by
  rwa [funext hy]

/-! ### Constants -/

theorem literal_eq_some {v : HostValue} {a : Scalar} (h : literal cell? v = some a) :
    ∃ c, cell? v = some c ∧ a = .literal c := by
  obtain ⟨c, hc, rfl⟩ := Option.map_eq_some_iff.mp h
  exact ⟨c, hc, rfl⟩

theorem listed_marks {items : List Value} {as : List Scalar}
    (h : (items.mapM fun v => literal cell? (.scalar v)) = some as) :
    ∃ own, Given cell? (items.map .scalar) own ∧
      Sql.Listed (",".intercalate (items.map fun _ => "?")) own as := by
  obtain ⟨own, hs, hmarks, rfl⟩ : ∃ own, Given cell? (items.map .scalar) own ∧
      (items.map fun _ => "?") = own.map (fun _ => "?") ∧ as = own.map Scalar.literal := by
    induction items generalizing as with
    | nil =>
      cases h
      exact ⟨[], .nil, rfl, rfl⟩
    | cons v r ih =>
      rw [List.mapM_cons] at h
      obtain ⟨a, ha, h⟩ := Option.bind_eq_some_iff.mp h
      obtain ⟨as', has, h⟩ := Option.bind_eq_some_iff.mp h
      cases h
      obtain ⟨c, hc, rfl⟩ := literal_eq_some ha
      obtain ⟨own, hs, hmarks, rfl⟩ := ih has
      exact ⟨c :: own, .cons hc hs, congrArg (List.cons "?") hmarks, rfl⟩
  have hpieces : ∀ p ∈ own.map (fun c => ("?", [c], Scalar.literal c)),
      Sql.Phrase p.1 p.2.1 p.2.2 := by
    intro p hp
    obtain ⟨c, -, rfl⟩ := List.mem_map.mp hp
    exact .parameter c
  have := Sql.Listed.intercalate hpieces
  rw [List.map_map, List.map_map, List.flatMap_map, List.flatMap_singleton'] at this
  exact ⟨own, hs, hmarks ▸ this⟩

theorem constant (v : HostValue) : Means cell? (placeholder v) (.constant cell? v) := by
  have hvalue : (Meaning.constant cell? v).value = some v := by cases v <;> rfl
  have htype : (Meaning.constant cell? v).type = none := by cases v <;> rfl
  refine ⟨_, _, Emits.placeholder_apply v, hvalue.symm, htype.symm, ?_, ?_⟩
  · rintro w ⟨⟩
    exact ⟨rfl, rfl⟩
  · have hone : ∀ w, Reading.Of cell? "?" [w] (((literal cell? w).map Reading.operand).getD .nothing) := by
      intro w
      cases h : literal cell? w with
      | none => trivial
      | some a =>
        obtain ⟨c, hc, rfl⟩ := literal_eq_some h
        exact fun _ => ⟨[c], .cons hc .nil, .parameter c⟩
    cases v with
    | scalar v => exact hone _
    | object typeName members => exact hone _
    | list items =>
      show Reading.Of cell? _ (items.map .scalar)
        (((items.mapM fun v => literal cell? (.scalar v)).map Reading.enclosed).getD .nothing)
      cases h : items.mapM fun v => literal cell? (.scalar v) with
      | none => trivial
      | some as =>
        intro _
        obtain ⟨own, hs, hl⟩ := listed_marks h
        exact ⟨_, own, String.append_assoc .., hs, hl⟩

theorem property {m : Mapping} {name : String} {c : Column}
    (hc : m.findProperty name = some c) : Means cell? (liftM (m.property name))
      { reading := .operand (.column none c.name true 0), type := some c.dataType } := by
  have hp : m.property name = .ok { text := quoteIdentifier c.name, type := some c.dataType } := by
    unfold Mapping.property Mapping.memberColumn
    rw [hc]
    rfl
  refine ⟨{ text := quoteIdentifier c.name, type := some c.dataType }, [], fun args => ?_, rfl, rfl,
    nofun, fun _ => ⟨[], .nil, .column c.name⟩⟩
  rw [lift_apply, hp, List.append_nil]
  rfl

/-! ### Forms of two operands -/

theorem joined (hx : Means cell? x μ) (hx' : Means cell? x' μ')
    {make : Compiled → Compiled → Compiled} (opening between closing : String) {a b e : Scalar}
    (ha : μ.reading.scalar? = some a) (hb : μ'.reading.scalar? = some b)
    (hmake : ∀ c c', c.value = μ.value → c'.value = μ'.value →
      make c c' = join opening c between c' closing)
    (hn : ∀ n, n ∈ a.callees ∨ n ∈ b.callees → n ∈ e.callees)
    (hread : ∀ {text text' : String} {own own' : List Cell}, Sql.Phrase text own a →
      Sql.Phrase text' own' b → ∃ inner,
        opening ++ text ++ between ++ text' ++ closing = "(" ++ (inner ++ ")") ∧
          Sql.Items inner (own ++ own') [e]) :
    Means cell? (do
      let c ← x
      let c' ← x'
      return make c c') (.form e) := by
  obtain ⟨c, new, hx, hv, -, -, hc⟩ := hx
  obtain ⟨c', new', hx', hv', -, -, hc'⟩ := hx'
  refine ⟨join opening c between c' closing, new ++ new', fun args => ?_, rfl, rfl, nofun, .form ?_⟩
  · rw [bind_ok (hx args), bind_ok (hx' _), hmake c c' hv hv', List.append_assoc]
    rfl
  · intro hcallable
    obtain ⟨own, hs, hp⟩ := hc.phrase ha fun n h => hcallable n (hn n (.inl h))
    obtain ⟨own', hs', hp'⟩ := hc'.phrase hb fun n h => hcallable n (hn n (.inr h))
    obtain ⟨inner, htext, hitems⟩ := hread hp hp'
    exact ⟨inner, own ++ own', htext, hs.append hs', hitems⟩

theorem items_sign {op : BinaryOperator} {spelling : String} {null : Bool} {o : Sql.Operator}
    (hs : op.spelling = some spelling) (ho : operator op null = some o)
    {text text' : String} {own own' : List Cell} {a b : Scalar} (hp : Sql.Phrase text own a)
    (hp' : Sql.Phrase text' own' b) :
    Sql.Items (text ++ (" " ++ sign op spelling null ++ " " ++ text')) (own ++ own')
      [.binary o a b] := by
  have hsymbol : ∀ {s : String} {o : Sql.Operator} {p : Nat},
      s ∈ [">", ">=", "<", "<=", "&", "|", "=", "<>"] →
      (∀ k, Sql.Parser.binaryOperator? ⟨.symbol s, s, k⟩ = some (o, p)) →
      Sql.Items (text ++ (" " ++ s ++ " " ++ text')) (own ++ own') [.binary o a b] :=
    fun hmem hop => .between hp (.symbol hmem) (fun k => ⟨_, rfl, hop _⟩) hp'
  have hword : ∀ {w : String} {o : Sql.Operator} {p : Nat}, Sql.isName w = true →
      (∀ k, Sql.Parser.binaryOperator? ⟨.word w, w, k⟩ = some (o, p)) →
      Sql.Items (text ++ (" " ++ w ++ " " ++ text')) (own ++ own') [.binary o a b] :=
    fun hw hop => .between hp (.word hw) (fun k => ⟨_, rfl, hop _⟩) hp'
  cases op with
  | gt => cases hs; cases ho; exact hsymbol (s := ">") (by decide) fun _ => rfl
  | ge => cases hs; cases ho; exact hsymbol (s := ">=") (by decide) fun _ => rfl
  | lt => cases hs; cases ho; exact hsymbol (s := "<") (by decide) fun _ => rfl
  | le => cases hs; cases ho; exact hsymbol (s := "<=") (by decide) fun _ => rfl
  | bitAnd => cases hs; cases ho; exact hsymbol (s := "&") (by decide) fun _ => rfl
  | bitOr => cases hs; cases ho; exact hsymbol (s := "|") (by decide) fun _ => rfl
  | and => cases hs; cases ho; exact hword (w := "and") (by decide) fun _ => rfl
  | or => cases hs; cases ho; exact hword (w := "or") (by decide) fun _ => rfl
  | eq =>
    cases hs
    cases null with
    | true => cases ho; exact .is hp hp'
    | false => cases ho; exact hsymbol (s := "=") (by decide) fun _ => rfl
  | ne =>
    cases hs
    cases null with
    | true => cases ho; exact .isNot hp hp'
    | false => cases ho; exact hsymbol (s := "<>") (by decide) fun _ => rfl
  | add => cases hs
  | sub => cases hs
  | mul => cases hs
  | div => cases hs
  | rem => cases hs

/-- A comparison, a logical or a bitwise operation. -/
theorem operation (hx : Means cell? x μ) (hx' : Means cell? x' μ') {op : BinaryOperator}
    {spelling : String} {ν : Meaning} (hs : op.spelling = some spelling)
    (h : Meaning.operation op μ μ' = some ν) : Means cell? (do
      let c ← x
      let c' ← x'
      return Compiled.operation op spelling c c') ν := by
  obtain ⟨o, ho, h⟩ := Option.bind_eq_some_iff.mp h
  obtain ⟨a, ha, h⟩ := Option.bind_eq_some_iff.mp h
  obtain ⟨b, hb, h⟩ := Option.bind_eq_some_iff.mp h
  cases h
  refine hx.joined hx' "(" (" " ++ sign op spelling (μ.carriesNull || μ'.carriesNull) ++ " ") ")" ha hb
    (fun c c' hv hv' => ?_) (fun n hn => List.mem_append.mpr hn) fun hp hp' =>
      ⟨_, ?_, items_sign hs ho hp hp'⟩
  · show join "(" c (" " ++ sign op spelling (c.value.any HostValue.isNull ||
      c'.value.any HostValue.isNull) ++ " ") c' ")" = _
    rw [hv, hv']
    rfl
  · simp only [String.append_assoc]

/-! ### Pattern matches -/

theorem like {make : Compiled → Compiled → Compiled} {pattern : Scalar → Scalar} {ν : Meaning}
    (hx : Means cell? x μ) (hx' : Means cell? x' μ') (between closing : String)
    (h : Meaning.like μ μ' pattern = some ν)
    (hmake : ∀ c c', make c c' = join "(" c between c' closing)
    (hn : ∀ b n, n ∈ b.callees → n ∈ (pattern b).callees)
    (hread : ∀ {text' : String} {own' : List Cell} {b : Scalar}, Sql.Phrase text' own' b →
      ∃ inner, between ++ text' ++ closing = " like " ++ (inner ++ ")") ∧
        Sql.Phrase inner own' (pattern b)) :
    Means cell? (do
      let c ← x
      let c' ← x'
      return make c c') ν := by
  obtain ⟨a, ha, h⟩ := Option.bind_eq_some_iff.mp h
  obtain ⟨b, hb, h⟩ := Option.bind_eq_some_iff.mp h
  cases h
  refine hx.joined hx' _ _ _ ha hb (fun c c' _ _ => hmake c c') (fun n hmem => ?_) fun hp hp' => ?_
  · exact List.mem_append.mpr (hmem.imp id (hn b n))
  · obtain ⟨inner, htext, hpattern⟩ := hread hp'
    refine ⟨_, ?_, .like hp hpattern⟩
    simp only [String.append_assoc] at htext ⊢
    rw [htext]

theorem phrase_inside {text : String} {own : List Cell} {b : Scalar}
    (hp : Sql.Phrase text own b) :
    Sql.Phrase ("(" ++ ("'%'" ++ ("||" ++ (text ++ ("||" ++ "'%'"))) ++ ")")) own
      (.binary .concat (.binary .concat percent b) percent) := by
  have := Sql.Items.concat .percent hp .percent
  rw [List.nil_append, List.append_nil] at this
  exact .enclosed this

theorem phrase_before {text : String} {own : List Cell} {b : Scalar}
    (hp : Sql.Phrase text own b) :
    Sql.Phrase ("(" ++ (text ++ ("||" ++ "'%'") ++ ")")) own (.binary .concat b percent) := by
  have := Sql.Items.between hp .concat (fun k => ⟨_, rfl, Sql.operator_concat _⟩)
    .percent
  rw [List.append_nil] at this
  exact .enclosed this

theorem phrase_after {text : String} {own : List Cell} {b : Scalar}
    (hp : Sql.Phrase text own b) :
    Sql.Phrase ("(" ++ ("'%'" ++ ("||" ++ text) ++ ")")) own (.binary .concat percent b) := by
  have := Sql.Items.between .percent .concat (fun k => ⟨_, rfl, Sql.operator_concat _⟩)
    hp
  rw [List.nil_append] at this
  exact .enclosed this

/-! ### Membership -/

/-- A membership test: the collection is compiled first, with arguments of its own, and stands
behind the item. -/
theorem inside {ν : Meaning} (hx : Means cell? x μ) (hx' : Means cell? x' μ')
    (h : Meaning.inside μ μ' = some ν) : Means cell? (do
      let (c, own) ← alone x
      let c' ← x'
      modify (· ++ own)
      return join "(" c' " in " c ")") ν := by
  obtain ⟨a, ha, h⟩ := Option.bind_eq_some_iff.mp h
  obtain ⟨as, has, h⟩ := Option.bind_eq_some_iff.mp h
  cases h
  obtain ⟨c, new, hx, -, -, -, hc⟩ := hx
  obtain ⟨c', new', hx', -, -, -, hc'⟩ := hx'
  refine ⟨join "(" c' " in " c ")", new' ++ new, fun args => ?_, rfl, rfl, nofun, .form ?_⟩
  · rw [bind_ok (alone_appends hx args)]
    refine (bind_ok (hx' _)).trans ?_
    rw [modify_bind, List.append_assoc]
    rfl
  · intro hcallable
    obtain ⟨own', hs', hp'⟩ := hc'.phrase ha fun n h => hcallable n (List.mem_append_left _ h)
    have has' : μ.reading = .enclosed as := by
      cases hr : μ.reading with
      | enclosed bs => rw [hr] at has; cases has; rfl
      | _ => rw [hr] at has; cases has
    rw [has'] at hc
    obtain ⟨inner, own, htext, hs, hl⟩ := hc fun n h => hcallable n (List.mem_append_right _ h)
    refine ⟨_, own' ++ own, ?_, hs'.append hs, hl.inside hp'⟩
    show "(" ++ c'.text ++ " in " ++ c.text ++ ")" = _
    rw [htext]
    simp only [String.append_assoc]

/-! ### Functions -/

theorem callable_lower : Sql.Callable "lower" := ⟨by decide, by decide, by decide⟩

theorem callable_upper : Sql.Callable "upper" := ⟨by decide, by decide, by decide⟩

/-- A call of a function of the engine, in parentheses. -/
theorem wrapped (name opening : String) (hname : Sql.Callable name)
    (ho : opening = "(" ++ (name ++ "(")) {ν : Meaning} (hx : Means cell? x μ) (h : (do
      return form (.call name false false [← μ.reading.scalar?] 0)) = some ν) :
    Means cell? (do return wrap opening (← x) "))") ν := by
  obtain ⟨a, ha, h⟩ := Option.bind_eq_some_iff.mp h
  cases h
  obtain ⟨c, new, hx, -, -, -, hc⟩ := hx
  refine ⟨wrap opening c "))", new, fun args => bind_ok (hx args), rfl, rfl, nofun, .form ?_⟩
  intro hcallable
  obtain ⟨own, hs, hp⟩ := hc.phrase ha fun n h => hcallable n (by
    rw [Scalar.callees, Scalar.calleesEach, Scalar.calleesEach, List.append_nil]
    exact List.mem_cons_of_mem _ h)
  refine ⟨_, own, ?_, hs, .single (.call hname (.single hp))⟩
  show opening ++ c.text ++ "))" = _
  rw [ho, show "))" = ")" ++ ")" from rfl]
  simp only [String.append_assoc]

theorem each {xs : List (Compiling Compiled)} {μs : List Meaning}
    (h : List.Forall₂ (Means cell?) xs μs) {as : List Scalar}
    (has : (μs.mapM fun μ => μ.reading.scalar?) = some as) :
    ∃ cs new, (∀ args, Compiled.each xs args = .ok (cs, args ++ new)) ∧
      ((∀ n ∈ Scalar.calleesEach as, Sql.Callable n) → ∃ own, Given cell? new own ∧
        Sql.Listed (",".intercalate (cs.map Compiled.text)) own as) := by
  suffices hpieces : ∃ cs new, (∀ args, Compiled.each xs args = .ok (cs, args ++ new)) ∧
      ((∀ n ∈ Scalar.calleesEach as, Sql.Callable n) →
        ∃ pieces : List (String × List Cell × Scalar),
          cs.map Compiled.text = pieces.map (fun p => p.1) ∧ as = pieces.map (fun p => p.2.2) ∧
          Given cell? new (pieces.flatMap fun p => p.2.1) ∧
          ∀ p ∈ pieces, Sql.Phrase p.1 p.2.1 p.2.2) by
    obtain ⟨cs, new, happly, hread⟩ := hpieces
    refine ⟨cs, new, happly, fun hcallable => ?_⟩
    obtain ⟨pieces, htexts, rfl, hs, hp⟩ := hread hcallable
    exact ⟨_, hs, htexts ▸ .intercalate hp⟩
  induction h generalizing as with
  | nil =>
    cases has
    exact ⟨[], [], fun args => by rw [List.append_nil]; rfl, fun _ => ⟨[], rfl, rfl, .nil, nofun⟩⟩
  | @cons x μ xs μs hx _ ih =>
    rw [List.mapM_cons] at has
    obtain ⟨a, ha, has⟩ := Option.bind_eq_some_iff.mp has
    obtain ⟨as, has', has⟩ := Option.bind_eq_some_iff.mp has
    cases has
    obtain ⟨c, new, hx, -, -, -, hc⟩ := hx
    obtain ⟨cs, news, hxs, hread⟩ := ih has'
    refine ⟨c :: cs, new ++ news, fun args => ?_, fun hcallable => ?_⟩
    · rw [each_cons, bind_ok (hx args), bind_ok (hxs _), List.append_assoc]
      rfl
    · obtain ⟨own, hs, hp⟩ := hc.phrase ha fun n h => hcallable n (List.mem_append_left _ h)
      obtain ⟨pieces, htexts, rfl, hss, hps⟩ := hread fun n h =>
        hcallable n (List.mem_append_right _ h)
      refine ⟨(c.text, own, a) :: pieces, congrArg (List.cons _) htexts, rfl, hs.append hss, ?_⟩
      rintro p (_ | ⟨_, hmem⟩)
      · exact hp
      · exact hps p hmem

theorem function {name : String} {xs : List (Compiling Compiled)} {μs : List Meaning} {ν : Meaning}
    (hxs : List.Forall₂ (Means cell?) xs μs) (h : Meaning.function name μs = some ν) :
    Means cell? (do return Compiled.function name (← Compiled.each xs)) ν := by
  obtain ⟨as, has, h⟩ := Option.bind_eq_some_iff.mp h
  cases h
  obtain ⟨cs, new, happly, hread⟩ := each hxs has
  refine ⟨Compiled.function name cs, new, fun args => bind_ok (happly args), rfl, rfl, nofun,
    fun hcallable => ?_⟩
  obtain ⟨own, hs, hl⟩ := hread fun n h => hcallable n (List.mem_cons_of_mem _ h)
  refine ⟨own, hs, ?_⟩
  have := hl.call (hcallable _ List.mem_cons_self)
  simpa only [Compiled.function, String.append_assoc] using this

/-! ### Calls -/

theorem call_other {name : String} {μs : List Meaning} (h : (name, μs.length) ∉ Emits.calls) :
    Meaning.call name μs = Meaning.function name μs := by
  unfold Meaning.call
  split
  · exact absurd (by simp [Emits.calls]) h
  · exact absurd (by simp [Emits.calls]) h
  · rfl

theorem method_other {μ : Option Meaning} {name : String} {μs : List Meaning}
    (h : (name, μs.length) ∉ Emits.methods) :
    Meaning.method μ name μs = Meaning.function name μs := by
  unfold Meaning.method
  split
  · exact absurd (by simp [Emits.methods]) h
  · exact absurd (by simp [Emits.methods]) h
  · exact absurd (by simp [Emits.methods]) h
  · exact absurd (by simp [Emits.methods]) h
  · exact absurd (by simp [Emits.methods]) h
  · exact absurd (by simp [Emits.methods]) h
  · rfl

theorem call {name : String} {xs : List (Compiling Compiled)} {μs : List Meaning} {ν : Meaning}
    (hxs : List.Forall₂ (Means cell?) xs μs) (h : Meaning.call name μs = some ν) :
    Means cell? (Compiled.call name xs) ν := by
  by_cases hmem : (name, xs.length) ∈ Emits.calls
  · simp only [Emits.calls, List.mem_cons, List.not_mem_nil, or_false, Prod.mk.injEq] at hmem
    rcases hmem with ⟨rfl, hlen⟩ | ⟨rfl, hlen⟩
    · obtain ⟨x, x', rfl⟩ := List.length_eq_two.mp hlen
      obtain _ | ⟨hx, _ | ⟨hx', _ | _⟩⟩ := hxs
      exact hx.like hx' " like " ")" h (fun _ _ => rfl)
        (fun _ _ hn => hn) fun hp => ⟨_, String.append_assoc .., hp⟩
    · obtain ⟨x, x', rfl⟩ := List.length_eq_two.mp hlen
      obtain _ | ⟨hx, _ | ⟨hx', _ | _⟩⟩ := hxs
      exact hx.inside hx' h
  · rw [call_other (by rwa [← hxs.length_eq])] at h
    rw [Emits.call_other hmem]
    exact function hxs h

/-- A substring test on text, a membership test otherwise. -/
theorem contains {ν : Meaning} (hx : Means cell? x μ) (hx' : Means cell? x' μ')
    (h : Meaning.method (some μ) "contains" [μ'] = some ν) :
    Means cell? (Compiled.method x "contains" [x']) ν := by
  have h : (if μ.isText then Meaning.like μ μ' fun b => .binary .concat (.binary .concat percent b) percent
      else Meaning.inside μ μ') = some ν := h
  obtain ⟨c, new, happly, hv, ht, hrest⟩ := id hx
  have htext : c.isText = μ.isText := by
    unfold Compiled.isText
    rw [hv, ht]
    rfl
  cases hμ : μ.isText with
  | true =>
    rw [hμ, if_pos rfl] at h
    have hlike := hx.like hx' " like ('%'||" "||'%'))" h (fun _ _ => rfl)
      (fun b n hn => List.mem_append_left _ (List.mem_append_right _ hn)) fun {text' _ _} hp =>
        ⟨_, by
          rw [show " like ('%'||" = " like " ++ ("(" ++ ("'%'" ++ "||")) from rfl,
            show "||'%'))" = "||" ++ ("'%'" ++ (")" ++ ")")) from rfl]
          simp only [String.append_assoc], phrase_inside hp⟩
    refine hlike.congr fun args => ?_
    show (alone x >>= _) args = _
    rw [bind_ok (alone_appends happly args), bind_ok (happly args)]
    simp only [htext, hμ, if_true]
    rfl
  | false =>
    rw [hμ, if_neg (by decide)] at h
    refine (hx.inside hx' h).congr fun args => ?_
    show (alone x >>= _) args = _
    rw [bind_ok (alone_appends happly args), bind_ok (alone_appends happly args)]
    simp only [htext, hμ, Bool.false_eq_true, if_false]

theorem method {receiver : Option Meaning} {name : String} {xs : List (Compiling Compiled)}
    {μs : List Meaning} {ν : Meaning} (hx : ∀ μ, receiver = some μ → Means cell? x μ)
    (hxs : List.Forall₂ (Means cell?) xs μs) (h : Meaning.method receiver name μs = some ν) :
    Means cell? (Compiled.method x name xs) ν := by
  by_cases hmem : (name, xs.length) ∈ Emits.methods
  · simp only [Emits.methods, List.mem_cons, List.not_mem_nil, or_false, Prod.mk.injEq,
      List.length_eq_zero_iff, List.length_eq_one_iff] at hmem
    rcases hmem with ⟨rfl, x', rfl⟩ | ⟨rfl, x', rfl⟩ | ⟨rfl, x', rfl⟩ | ⟨rfl, x',
      rfl⟩ | ⟨rfl, rfl⟩ |
      ⟨rfl, rfl⟩
    · obtain _ | ⟨hx', _ | _⟩ := hxs
      obtain ⟨μ, rfl, h⟩ := Option.bind_eq_some_iff.mp h
      exact (hx μ rfl).contains hx' h
    · obtain _ | ⟨hx', _ | _⟩ := hxs
      obtain ⟨μ, rfl, h⟩ := Option.bind_eq_some_iff.mp h
      refine (hx μ rfl).like hx' " like (" "||'%'))" h (fun _ _ => rfl)
        (fun b n hn => List.mem_append_left _ hn) fun hp => ⟨_, ?_, phrase_before hp⟩
      rw [show " like (" = " like " ++ "(" from rfl,
        show "||'%'))" = "||" ++ ("'%'" ++ (")" ++ ")")) from rfl]
      simp only [String.append_assoc]
    · obtain _ | ⟨hx', _ | _⟩ := hxs
      obtain ⟨μ, rfl, h⟩ := Option.bind_eq_some_iff.mp h
      refine (hx μ rfl).like hx' " like ('%'||" "))" h (fun _ _ => rfl)
        (fun b n hn => List.mem_append_right _ hn) fun hp => ⟨_, ?_, phrase_after hp⟩
      rw [show " like ('%'||" = " like " ++ ("(" ++ ("'%'" ++ "||")) from rfl,
        show "))" = ")" ++ ")" from rfl]
      simp only [String.append_assoc]
    · obtain _ | ⟨hx', _ | _⟩ := hxs
      obtain ⟨μ, rfl, h⟩ := Option.bind_eq_some_iff.mp h
      obtain ⟨a, ha, h⟩ := Option.bind_eq_some_iff.mp h
      obtain ⟨b, hb, h⟩ := Option.bind_eq_some_iff.mp h
      cases h
      refine (hx μ rfl).joined hx' "(" " = (" "))" ha hb
        (fun _ _ _ _ => rfl) (fun n hn => List.mem_append.mpr hn) fun {_ text' _ _} hp hp' =>
          ⟨_, ?_, .between hp (.symbol (s := "=") (by decide)) (fun k => ⟨_, rfl, rfl⟩)
            (.enclosed (.single hp'))⟩
      rw [show " = (" = " " ++ "=" ++ " " ++ "(" from rfl, show "))" = ")" ++ ")" from rfl]
      simp only [String.append_assoc]
    · cases hxs
      obtain ⟨μ, rfl, h⟩ := Option.bind_eq_some_iff.mp h
      exact (hx μ rfl).wrapped "lower" "(lower(" callable_lower rfl h
    · cases hxs
      obtain ⟨μ, rfl, h⟩ := Option.bind_eq_some_iff.mp h
      exact (hx μ rfl).wrapped "upper" "(upper(" callable_upper rfl h
  · rw [method_other (by rwa [← hxs.length_eq])] at h
    rw [Emits.method_other hmem]
    exact function hxs h

/-! ### Values that are replaced -/

/-- A conversion of a value writes the coerced value over its argument. -/
theorem convert {target : DataType} {ν : Meaning} (hx : Means cell? x μ)
    (h : μ.convert cell? target = some ν) :
    Means cell? (x >>= fun c => c.convert target) ν := by
  obtain ⟨⟨text, value, type⟩, new, hx, hv, ht, hplaced, hc⟩ := hx
  obtain ⟨ρ, _, _⟩ := μ
  cases hv
  cases ht
  have hkeep : Means cell? (fun args => .ok ({ text, value, type := some target }, args ++ new))
      { reading := ρ, value, type := some target } :=
    ⟨_, new, fun _ => rfl, rfl, rfl, hplaced, hc⟩
  refine congr (x := fun args => Compiled.convert ⟨text, value, type⟩ target (args ++ new)) ?_
    fun args => bind_ok (hx args)
  rcases value with _ | s | items | ⟨typeName, members⟩
  · cases h
    exact hkeep
  · obtain ⟨rfl, rfl⟩ := hplaced _ rfl
    unfold Meaning.convert at h
    cases hs : s.isNull with
    | true =>
      simp only [hs, if_true] at h
      cases h
      refine hkeep.congr fun args => ?_
      simp only [Compiled.convert, hs, if_true]
      rfl
    | false =>
      simp only [hs, Bool.false_eq_true, if_false] at h
      obtain ⟨s', hs', rfl⟩ := Option.map_eq_some_iff.mp h
      have hcoerce : s.coerce target = .ok s' := by
        cases hc : s.coerce target with
        | error fault => rw [hc] at hs'; cases hs'
        | ok v => rw [hc] at hs'; cases hs'; rfl
      have hread : (Meaning.constant cell? (.scalar s')).reading.Of cell? "?" [.scalar s'] := by
        have hconstant : Means cell? (placeholder (.scalar s')) (.constant cell? (.scalar s')) :=
          constant _
        obtain ⟨c, new', -, hv', -, hplaced', hc'⟩ := hconstant
        obtain ⟨rfl, htext⟩ := hplaced' _ hv'
        rwa [htext] at hc'
      refine ⟨{ text := "?", value := some (.scalar s'), type := some target }, [.scalar s'],
        fun args => ?_, rfl, rfl, ?_, hread⟩
      · rw [← Emits.replaceLast_append args (.scalar s) (.scalar s')]
        simp only [Compiled.convert, hs, hcoerce]
        rfl
      · rintro w ⟨⟩
        exact ⟨rfl, rfl⟩
  · cases h
    exact hkeep
  · cases h
    exact hkeep

/-- A member of a host object takes the place of the object. -/
theorem hostMember {name kind : String} {ν : Meaning} (hx : Means cell? x μ)
    (h : μ.hostMember cell? name = some ν) :
    Means cell? (x >>= fun c => c.hostMember name kind) ν := by
  obtain ⟨⟨text, value, type⟩, new, hx, hv, -, hplaced, -⟩ := hx
  unfold Meaning.hostMember at h
  rw [← show value = μ.value from hv] at h
  rcases value with _ | s | items | ⟨typeName, members⟩
  · cases h
  · cases h
  · cases h
  · obtain ⟨rfl, -⟩ := hplaced _ rfl
    obtain ⟨v, hm, rfl⟩ := Option.map_eq_some_iff.mp h
    refine (constant v).congr fun args => ?_
    rw [bind_ok (hx args)]
    simp only [Compiled.hostMember, hm]
    rw [modify_bind]
    exact congrArg (Compiled.placeholder v) (Emits.dropLast_append args _)

end Means

/-! ## Expressions -/

namespace Mapping

variable {cell? : HostValue → Option Cell}

theorem reads_member {m : Mapping} {object : Expression} (h : object ≠ .parameter) (name : String) :
    m.reads cell? (.member object name) =
      (m.reads cell? object).bind fun μ => μ.hostMember cell? name := by
  cases object with
  | parameter => exact absurd rfl h
  | _ => rfl

mutual

/-- An expression with a meaning compiles, to a text that is read as this meaning. -/
theorem means_compile (m : Mapping) : (e : Expression) →
    {μ : Meaning} → m.reads cell? e = some μ → Means cell? (m.compile e) μ
  | .constant v, _, hμ => by
    cases hμ
    exact .constant v
  | .member object name, _, hμ => by
    by_cases ho : object = .parameter
    · subst ho
      obtain ⟨c, hc, rfl⟩ := Option.map_eq_some_iff.mp hμ
      exact .property hc
    · rw [reads_member ho] at hμ
      obtain ⟨μ, hobject, hμ⟩ := Option.bind_eq_some_iff.mp hμ
      rw [compile_member ho]
      exact (m.means_compile object hobject).hostMember hμ
  | .binary op left right, _, hμ => by
    obtain ⟨μ, hl, hμ⟩ := Option.bind_eq_some_iff.mp hμ
    obtain ⟨μ', hr, hμ⟩ := Option.bind_eq_some_iff.mp hμ
    cases hs : op.spelling with
    | none =>
      obtain ⟨o, ho, -⟩ := Option.bind_eq_some_iff.mp hμ
      cases op <;> cases hs <;> cases ho
    | some spelling =>
      refine ((m.means_compile left hl).operation (m.means_compile right hr) hs
        hμ).congr fun args => ?_
      simp only [compile, hs]
  | .call name arguments, _, hμ => by
    obtain ⟨μs, harguments, hμ⟩ := Option.bind_eq_some_iff.mp hμ
    exact .call (m.means_compileEach arguments harguments) hμ
  | .method receiver name arguments, _, hμ => by
    obtain ⟨μs, harguments, hμ⟩ := Option.bind_eq_some_iff.mp hμ
    exact .method (fun μ hμ => m.means_compile receiver hμ)
      (m.means_compileEach arguments harguments) hμ
  | .convert operand target, _, hμ => by
    obtain ⟨μ, ho, hμ⟩ := Option.bind_eq_some_iff.mp hμ
    exact (m.means_compile operand ho).convert hμ
  | .parameter, _, hμ | .unary _ _, _, hμ | .conditional _ _ _, _, hμ => nomatch hμ

theorem means_compileEach (m : Mapping) :
    (es : List Expression) → {μs : List Meaning} → m.readsEach cell? es = some μs →
    List.Forall₂ (Means cell?) (m.compileEach es) μs
  | [], _, hμ => by
    cases hμ
    exact .nil
  | e :: r, _, hμ => by
    obtain ⟨μ, he, hμ⟩ := Option.bind_eq_some_iff.mp hμ
    obtain ⟨μs, hr, hμ⟩ := Option.bind_eq_some_iff.mp hμ
    cases hμ
    exact .cons (m.means_compile e he) (m.means_compileEach r hr)

end

end Mapping

end RecordMapper
