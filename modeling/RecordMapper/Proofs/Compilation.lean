import Mathlib.Data.List.Forall2
import Mathlib.Tactic.Choose
import RecordMapper.Proofs.Marks

/-!
# Compiling appends what the marks stand for

1. `Mapping.inline` is compiling with every value written in its place: no marks and no list of
   arguments.
2. `Emits`: a step of compiling appends the same values to any arguments, and these are the values
   that stand in place of its marks.
3. Each node emits, so every expression does (`Mapping.emits_compile`).
-/

namespace RecordMapper

/-! ## Lower case -/

namespace LowerCase

theorem isPlain_of_toNat {c : Char} (h : c.toNat = 0 ∨ 64 ≤ c.toNat) : Marks.isPlain c = true := by
  have hmark : c ≠ '?' := by
    rintro rfl
    exact absurd h (by decide)
  have hquote : c ≠ '"' := by
    rintro rfl
    exact absurd h (by decide)
  unfold Marks.isPlain
  rw [bne_iff_ne.mpr hmark, bne_iff_ne.mpr hquote]
  rfl

theorem isPlain_ofNat {n : Nat} (h : 64 ≤ n) : Marks.isPlain (Char.ofNat n) = true := by
  by_cases hv : n.isValidChar
  · have hn : Char.ofNat n = Char.ofNatAux n hv := dif_pos hv
    rw [hn]
    exact isPlain_of_toNat (Or.inr h)
  · have hn : Char.ofNat n = Char.ofNatAux 0 (by decide) := dif_neg hv
    rw [hn]
    decide

theorem isPlain_toLower {c : Char} (h : Marks.isPlain c = true) :
    Marks.isPlain c.toLower = true := by
  unfold Char.toLower
  split
  · rename_i hc
    refine isPlain_of_toNat (Or.inr ?_)
    show 64 ≤ (c.val + 32).toNat
    have h1 := UInt32.le_iff_toNat_le.mp hc.1
    have h2 := UInt32.le_iff_toNat_le.mp hc.2
    have hA : 'A'.val.toNat = 65 := rfl
    have hZ : 'Z'.val.toNat = 90 := rfl
    have h32 : (32 : UInt32).toNat = 32 := rfl
    rw [UInt32.toNat_add]
    omega
  · exact h

theorem isPlain_letter {c d : Char} (hc : Marks.isPlain c = true) (hd : d ∈ letter c) :
    Marks.isPlain d = true := by
  unfold letter at hd
  split at hd
  · rw [List.mem_singleton.mp hd]
    exact isPlain_toLower hc
  · split at hd
    · rcases List.mem_cons.mp hd with rfl | hd
      · decide
      · rw [List.mem_singleton.mp hd]
        decide
    · split at hd
      · rename_i first last step shift hrun
        have hmem := List.mem_of_find?_eq_some hrun
        have hp := List.find?_some hrun
        have hall : ∀ r ∈ runs, 64 ≤ (r.1 : Int) + r.2.2.2 := by decide +kernel
        have h64 : 64 ≤ (first : Int) + shift := hall _ hmem
        simp only [Bool.and_eq_true, decide_eq_true_eq] at hp
        rw [List.mem_singleton.mp hd]
        exact isPlain_ofNat (by omega)
      · rw [List.mem_singleton.mp hd]
        exact hc

theorem isPlain_go {cs : List Char} (h : cs.all Marks.isPlain = true) (before : List Char) :
    (go before cs).all Marks.isPlain = true := by
  induction cs generalizing before with
  | nil => rfl
  | cons c r ih =>
    rw [List.all_cons, Bool.and_eq_true] at h
    rw [go, List.all_append, Bool.and_eq_true]
    refine ⟨?_, ih h.2 _⟩
    split
    · split
      · decide
      · decide
    · rw [List.all_eq_true]
      exact fun d hd => isPlain_letter h.1 hd

end LowerCase

theorem isPlain_lowerCase {name : String} (h : name.toList.all Marks.isPlain = true) :
    (lowerCase name).toList.all Marks.isPlain = true := by
  unfold lowerCase
  rw [String.toList_ofList]
  exact LowerCase.isPlain_go h []

/-! ## The reference -/

/-- The values that stand in the place of a value: the items of a list, or the value itself. -/
def HostValue.elements : HostValue → List HostValue
  | .list items => items.map .scalar
  | v => [v]

namespace Compiled

/-- The text of a value whose elements are written by a function. -/
def placed (write : HostValue → String) : HostValue → String
  | .list items => "(" ++ ",".intercalate (items.map fun v => write (.scalar v)) ++ ")"
  | v => write v

def inPlace (write : HostValue → String) (v : HostValue) : Compiled :=
  { text := placed write v, value := some v }

def inlineCall (name : String) (arguments : List (Except Error Compiled)) :
    Except Error Compiled :=
  match name, arguments with
  | "like", [a, b] => do return join "(" (← a) " like " (← b) ")"
  | "contains", [collection, item] => do
    let collection ← collection
    let item ← item
    return join "(" item " in " collection ")"
  | name, arguments => do return function name (← arguments.mapM id)

def inlineMethod (receiver : Except Error Compiled) (name : String)
    (arguments : List (Except Error Compiled)) : Except Error Compiled :=
  match name, arguments with
  | "contains", [item] => do
    let receiver ← receiver
    let item ← item
    if receiver.isText then return join "(" receiver " like ('%'||" item "||'%'))"
    else return join "(" item " in " receiver ")"
  | "starts_with", [head] => do return join "(" (← receiver) " like (" (← head) "||'%'))"
  | "ends_with", [tail] => do return join "(" (← receiver) " like ('%'||" (← tail) "))"
  | "equals", [other] => do return join "(" (← receiver) " = (" (← other) "))"
  | "to_lower", [] => do return wrap "(lower(" (← receiver) "))"
  | "to_upper", [] => do return wrap "(upper(" (← receiver) "))"
  | name, arguments => do return function name (← arguments.mapM id)

def inlineConvert (write : HostValue → String) (a : Compiled) (target : DataType) :
    Except Error Compiled :=
  match a.value with
  | some (.scalar v) =>
    if v.isNull then .ok { a with type := some target }
    else
      match v.coerce target with
      | .ok v' => .ok { inPlace write (.scalar v') with type := some target }
      | .error fault => .error (.type fault)
  | _ => .ok { a with type := some target }

def inlineMember (write : HostValue → String) (a : Compiled) (name kind : String) :
    Except Error Compiled :=
  match a.value with
  | some (.object typeName members) =>
    match (HostValue.object typeName members).member? name with
    | some v => .ok (inPlace write v)
    | none => .error (.expression (.noMember typeName name))
  | _ => .error (.expression (.notAnObject name kind))

end Compiled

namespace Mapping

mutual

/-- Compiles with every constant, list item and member of a host object written in its place. -/
def inline (write : HostValue → String) (m : Mapping) : Expression → Except Error Compiled
  | .constant v => .ok (.inPlace write v)
  | .member .parameter name => m.property name
  | .member object name => do Compiled.inlineMember write (← m.inline write object) name object.kind
  | .binary op left right =>
    match op.spelling with
    | none => .error (.expression (.noOperator op.name))
    | some spelling => do
      return Compiled.operation op spelling (← m.inline write left) (← m.inline write right)
  | .call name arguments => Compiled.inlineCall name (m.inlineEach write arguments)
  | .method receiver name arguments =>
    Compiled.inlineMethod (m.inline write receiver) name (m.inlineEach write arguments)
  | .convert operand target => do Compiled.inlineConvert write (← m.inline write operand) target
  | e => .error (.expression (.notCompilable e.kind))

def inlineEach (write : HostValue → String) (m : Mapping) :
    List Expression → List (Except Error Compiled)
  | [] => []
  | e :: r => m.inline write e :: m.inlineEach write r

end

end Mapping

/-! ## Steps that emit -/

namespace Compiling

variable {α β : Type} {x : Compiling α} {f : α → Compiling β} {a : α} {e : Error}
  {args args' : List HostValue}

theorem bind_ok (h : x args = .ok (a, args')) : (x >>= f) args = f a args' := by
  simp only [bind, StateT.bind, h, Except.bind]

theorem bind_error (h : x args = .error e) : (x >>= f) args = .error e := by
  simp only [bind, StateT.bind, h, Except.bind]

theorem of_bind_ok {after : List HostValue} {b : β}
    (h : (x >>= f) args = .ok (b, after)) :
    ∃ a mid, x args = .ok (a, mid) ∧ f a mid = .ok (b, after) := by
  cases hx : x args with
  | error e =>
    rw [bind_error hx] at h
    cases h
  | ok p => exact ⟨p.1, p.2, rfl, (bind_ok hx).symm.trans h⟩

theorem pure_apply (a : α) (args : List HostValue) : (pure a : Compiling α) args = .ok (a, args) :=
  (rfl)

theorem throw_apply (e : Error) (args : List HostValue) :
    (throw e : Compiling α) args = .error e := (rfl)

theorem modify_bind (g : List HostValue → List HostValue) (f : Unit → Compiling β)
    (args : List HostValue) : ((modify g : Compiling Unit) >>= f) args = f () (g args) := (rfl)

theorem lift_apply (y : Except Error α) (args : List HostValue) :
    (liftM y : Compiling α) args = y.map fun a => (a, args) := by
  cases y <;> rfl

theorem alone_apply {x : Compiling Compiled} {c : Compiled} {new : List HostValue}
    (h : x [] = .ok (c, new)) (args : List HostValue) :
    Compiled.alone x args = .ok ((c, new), args) := by
  unfold Compiled.alone
  rw [h]
  rfl

theorem alone_appends {x : Compiling Compiled} {c : Compiled} {new : List HostValue}
    (h : ∀ args, x args = .ok (c, args ++ new)) (args : List HostValue) :
    Compiled.alone x args = .ok ((c, new), args) :=
  alone_apply (h []) args

theorem each_cons (x : Compiling Compiled) (xs : List (Compiling Compiled)) :
    Compiled.each (x :: xs) = (do let a ← x; let as ← Compiled.each xs; return a :: as) :=
  List.mapM_cons

theorem of_alone_bind {x : Compiling Compiled} {args after : List HostValue}
    {f : Compiled × List HostValue → Compiling β} {b : β}
    (h : (Compiled.alone x >>= f) args = .ok (b, after)) :
    ∃ a own, x [] = .ok (a, own) ∧ f (a, own) args = .ok (b, after) := by
  obtain ⟨⟨a, own⟩, mid, ha, hf⟩ := of_bind_ok h
  unfold Compiled.alone at ha
  cases hx : x [] with
  | error e =>
    rw [hx] at ha
    cases ha
  | ok p =>
    rw [hx] at ha
    cases ha
    exact ⟨a, own, rfl, hf⟩

end Compiling

open Compiled in
/-- The step appends the same values whatever the arguments are. Its text has a mark for each of
them, and the reference writes them in the places of the marks. Where it has a value, this is what
it has appended. -/
def Emits (x : Compiling Compiled) (y : (HostValue → String) → Except Error Compiled) : Prop :=
  (∃ e, (∀ args, x args = .error e) ∧ ∀ write, y write = .error e) ∨
    ∃ c new, (∀ args, x args = .ok (c, args ++ new)) ∧
      (∀ v, c.value = some v → new = v.elements ∧ c.text = placed (fun _ => "?") v) ∧
      ∀ write, ∃ out, y write = .ok { c with text := out } ∧ Marks.Fits write c.text new out

namespace Emits

open Compiling Compiled

theorem fail (e : Error) : Emits (throw e) fun _ => .error e :=
  Or.inl ⟨e, fun _ => rfl, fun _ => rfl⟩

theorem congr {x x' : Compiling Compiled} {y y' : (HostValue → String) → Except Error Compiled}
    (h : Emits x y) (hx : ∀ args, x args = x' args) (hy : ∀ write, y write = y' write) :
    Emits x' y' := by
  rw [← funext hx, ← funext hy]
  exact h

theorem placeholder_apply (v : HostValue) (args : List HostValue) : placeholder v args =
    .ok ({ text := placed (fun _ => "?") v, value := some v }, args ++ v.elements) := by
  cases v <;> rfl

theorem fits_placed (write : HostValue → String) (v : HostValue) :
    Marks.Fits write (placed (fun _ => "?") v) v.elements (placed write v) := by
  cases v with
  | scalar v => exact .mark _
  | object typeName members => exact .mark _
  | list items =>
    have hitems := Marks.Fits.intercalate write
      (items.map fun v => ("?", [HostValue.scalar v], write (.scalar v))) (by
        intro p hp
        obtain ⟨v, -, rfl⟩ := List.mem_map.mp hp
        exact .mark _)
    have hopen : Marks.Fits write "(" [] "(" := .plain (by decide)
    have hclose : Marks.Fits write ")" [] ")" := .plain (by decide)
    have := (hopen.append hitems).append hclose
    rw [List.nil_append, List.append_nil, List.map_map, List.map_map, List.flatMap_map] at this
    rw [← List.map_eq_flatMap] at this
    exact this

theorem placeholder (v : HostValue) :
    Emits (Compiled.placeholder v) fun write => .ok (inPlace write v) := by
  refine Or.inr ⟨_, _, placeholder_apply v, ?_, fun write => ⟨_, rfl, fits_placed write v⟩⟩
  intro w hw
  cases hw
  exact ⟨rfl, rfl⟩

section Operands

variable {x x' : Compiling Compiled} {y y' : (HostValue → String) → Except Error Compiled}
  {write : HostValue → String} {a b : Compiled} {xs ys : List HostValue}
  {outa outb opening between closing : String}

theorem fits_join (ho : opening.toList.all Marks.isPlain = true)
    (hb : between.toList.all Marks.isPlain = true) (hc : closing.toList.all Marks.isPlain = true)
    (ha : Marks.Fits write a.text xs outa) (hb' : Marks.Fits write b.text ys outb) :
    Marks.Fits write (join opening a between b closing).text (xs ++ ys)
      (join opening { a with text := outa } between { b with text := outb } closing).text := by
  have := ((((Marks.Fits.plain ho).append ha).append (.plain hb)).append hb').append
    (Marks.Fits.plain hc : Marks.Fits write closing [] closing)
  rwa [List.nil_append, List.append_nil, List.append_nil] at this

theorem fits_wrap (ho : opening.toList.all Marks.isPlain = true)
    (hc : closing.toList.all Marks.isPlain = true) (ha : Marks.Fits write a.text xs outa) :
    Marks.Fits write (wrap opening a closing).text xs
      (wrap opening { a with text := outa } closing).text := by
  have := ((Marks.Fits.plain ho).append ha).append
    (Marks.Fits.plain hc : Marks.Fits write closing [] closing)
  rwa [List.nil_append, List.append_nil] at this

theorem wrapped (hx : Emits x y) (ho : opening.toList.all Marks.isPlain = true)
    (hc : closing.toList.all Marks.isPlain = true) :
    Emits (do return wrap opening (← x) closing)
      fun write => do return wrap opening (← y write) closing := by
  rcases hx with ⟨e, hx, hy⟩ | ⟨a, xs, hx, -, hy⟩
  · exact Or.inl ⟨e, fun args => bind_error (hx args), fun write => by simp only [hy]; rfl⟩
  · refine Or.inr ⟨wrap opening a closing, xs, fun args => bind_ok (hx args), nofun,
      fun write => ?_⟩
    obtain ⟨out, hout, hfits⟩ := hy write
    exact ⟨_, by simp only [hout]; rfl, fits_wrap ho hc hfits⟩

/-- A node of two operands that stand in the text in the order in which they are compiled. What is
between them may depend on their values. -/
theorem joined (sign : Option HostValue → Option HostValue → String) (hx : Emits x y)
    (hx' : Emits x' y')
    (ho : opening.toList.all Marks.isPlain = true)
    (hs : ∀ v w, (sign v w).toList.all Marks.isPlain = true)
    (hc : closing.toList.all Marks.isPlain = true) :
    Emits (do
        let a ← x
        let b ← x'
        return join opening a (sign a.value b.value) b closing)
      fun write => do
        let a ← y write
        let b ← y' write
        return join opening a (sign a.value b.value) b closing := by
  rcases hx with ⟨e, hx, hy⟩ | ⟨a, xs, hx, -, hy⟩
  · exact Or.inl ⟨e, fun args => bind_error (hx args), fun write => by simp only [hy]; rfl⟩
  rcases hx' with ⟨e, hx', hy'⟩ | ⟨b, ys, hx', -, hy'⟩
  · refine Or.inl ⟨e, fun args => ?_, fun write => ?_⟩
    · rw [bind_ok (hx args), bind_error (hx' _)]
    · obtain ⟨out, hout, -⟩ := hy write
      simp only [hout, hy']
      rfl
  · refine Or.inr ⟨join opening a (sign a.value b.value) b closing, xs ++ ys, fun args => ?_, nofun,
      fun write => ?_⟩
    · rw [bind_ok (hx args), bind_ok (hx' _), List.append_assoc]
      rfl
    · obtain ⟨outa, houta, hfa⟩ := hy write
      obtain ⟨outb, houtb, hfb⟩ := hy' write
      exact ⟨_, by simp only [houta, houtb]; rfl, fits_join ho (hs _ _) hc hfa hfb⟩

theorem joined' (hx : Emits x y) (hx' : Emits x' y') (ho : opening.toList.all Marks.isPlain = true)
    (hs : between.toList.all Marks.isPlain = true) (hc : closing.toList.all Marks.isPlain = true) :
    Emits (do
        let a ← x
        let b ← x'
        return join opening a between b closing)
      fun write => do
        let a ← y write
        let b ← y' write
        return join opening a between b closing :=
  joined (fun _ _ => between) hx hx' ho (fun _ _ => hs) hc

/-- A membership test: the collection is compiled first, with arguments of its own, and stands
behind the item. -/
theorem member (hx : Emits x y) (hx' : Emits x' y') :
    Emits (do
        let (a, own) ← alone x
        let b ← x'
        modify (· ++ own)
        return join "(" b " in " a ")")
      fun write => do
        let a ← y write
        let b ← y' write
        return join "(" b " in " a ")" := by
  rcases hx with ⟨e, hx, hy⟩ | ⟨a, xs, hx, -, hy⟩
  · refine Or.inl ⟨e, fun args => bind_error ?_, fun write => by simp only [hy]; rfl⟩
    unfold alone
    rw [hx]
    rfl
  have halone := alone_appends hx
  rcases hx' with ⟨e, hx', hy'⟩ | ⟨b, ys, hx', -, hy'⟩
  · refine Or.inl ⟨e, fun args => ?_, fun write => ?_⟩
    · rw [bind_ok (halone args)]
      exact bind_error (hx' _)
    · obtain ⟨out, hout, -⟩ := hy write
      simp only [hout, hy']
      rfl
  · refine Or.inr ⟨join "(" b " in " a ")", ys ++ xs, fun args => ?_, nofun, fun write => ?_⟩
    · rw [bind_ok (halone args)]
      refine (bind_ok (hx' _)).trans ?_
      rw [modify_bind, List.append_assoc]
      rfl
    · obtain ⟨outa, houta, hfa⟩ := hy write
      obtain ⟨outb, houtb, hfb⟩ := hy' write
      exact ⟨_, by simp only [houta, houtb]; rfl, fits_join (by decide) (by decide) (by decide) hfb hfa⟩

/-- A substring test on text, a membership test otherwise. The receiver is compiled first, with
arguments of its own. -/
theorem contains (hx : Emits x y) (hx' : Emits x' y') :
    Emits (do
        let (a, own) ← alone x
        if a.isText then
          modify (· ++ own)
          let b ← x'
          return join "(" a " like ('%'||" b "||'%'))"
        else
          let b ← x'
          modify (· ++ own)
          return join "(" b " in " a ")")
      fun write => do
        let a ← y write
        let b ← y' write
        if a.isText then return join "(" a " like ('%'||" b "||'%'))"
        else return join "(" b " in " a ")" := by
  rcases hx with ⟨e, hx, hy⟩ | ⟨a, xs, hx, hv, hy⟩
  · refine Or.inl ⟨e, fun args => bind_error ?_, fun write => by simp only [hy]; rfl⟩
    unfold alone
    rw [hx]
    rfl
  have halone := alone_appends hx
  have htext : ∀ out : String, ({ a with text := out } : Compiled).isText = a.isText := fun _ => rfl
  have hx0 : Emits x y := Or.inr ⟨a, xs, hx, hv, hy⟩
  cases ht : a.isText with
  | true =>
    have hopen : "(".toList.all Marks.isPlain = true := by decide
    have hlike : " like ('%'||".toList.all Marks.isPlain = true := by decide
    have hclose : "||'%'))".toList.all Marks.isPlain = true := by decide
    refine (joined' hx0 hx' hopen hlike hclose).congr (fun args => ?_) fun write => ?_
    · rw [bind_ok (hx args), bind_ok (halone args)]
      simp only [ht, if_true]
      rfl
    · obtain ⟨out, hout, -⟩ := hy write
      simp only [hout, htext, ht, if_true, bind, Except.bind]
  | false =>
    refine (member hx0 hx').congr (fun args => ?_) fun write => ?_
    · rw [bind_ok (halone args), bind_ok (halone args)]
      simp only [ht, Bool.false_eq_true, if_false]
    · obtain ⟨out, hout, -⟩ := hy write
      simp only [hout, htext, ht, Bool.false_eq_true, if_false, bind, Except.bind]

end Operands

/-! ### Values that are replaced -/

section Replaced

variable {x : Compiling Compiled} {y : (HostValue → String) → Except Error Compiled}

/-- A step on the outcome of another, which may undo what that has appended. -/
theorem andThen (hx : Emits x y) {f : Compiled → Compiling Compiled}
    {g : (HostValue → String) → Compiled → Except Error Compiled}
    (h : ∀ c new (out : (HostValue → String) → String),
      (∀ v, c.value = some v → new = v.elements ∧ c.text = placed (fun _ => "?") v) →
      (∀ write, Marks.Fits write c.text new (out write)) →
      Emits (fun args => f c (args ++ new)) fun write => g write { c with text := out write }) :
    Emits (x >>= f) fun write => y write >>= g write := by
  rcases hx with ⟨e, hx, hy⟩ | ⟨c, new, hx, hv, hy⟩
  · exact Or.inl ⟨e, fun args => bind_error (hx args), fun write => by simp only [hy]; rfl⟩
  · choose out hout hfits using hy
    refine (h c new out hv hfits).congr (fun args => (bind_ok (hx args)).symm) fun write => ?_
    rw [hout]
    rfl

theorem dropLast_append (args : List HostValue) (v : HostValue) :
    (args ++ [v]).dropLast = args := List.dropLast_concat

theorem replaceLast_append (args : List HostValue) (v w : HostValue) :
    replaceLast w (args ++ [v]) = args ++ [w] := by
  unfold replaceLast
  rw [if_neg (by simp), List.dropLast_concat]

/-- A conversion writes the coerced value over the last argument, which is that of its operand. -/
theorem convert (hx : Emits x y) (target : DataType) : Emits (x >>= fun c => c.convert target)
    fun write => y write >>= fun c => inlineConvert write c target := by
  refine hx.andThen fun c new out hv hfits => ?_
  have hkeep : Emits (fun args => .ok ({ c with type := some target }, args ++ new))
      fun write => .ok { c with text := out write, type := some target } :=
    Or.inr ⟨{ c with type := some target }, new, fun _ => rfl, hv, fun write =>
      ⟨out write, rfl, hfits write⟩⟩
  rcases c with ⟨text, _ | s | items | ⟨typeName, members⟩, type⟩
  · exact hkeep
  · obtain ⟨rfl, htext⟩ := hv _ rfl
    cases hs : s.isNull with
    | true =>
      refine hkeep.congr (fun args => ?_) fun write => ?_
      · simp only [Compiled.convert, hs, if_true]
        rfl
      · simp only [inlineConvert, hs, if_true]
    | false =>
      cases hcoerce : s.coerce target with
      | error fault =>
        refine (fail (.type fault)).congr (fun args => ?_) fun write => ?_
        · simp only [Compiled.convert, hs, hcoerce]
          rfl
        · simp only [inlineConvert, hs, hcoerce]
          rfl
      | ok s' =>
        refine Or.inr ⟨{ text, value := some (.scalar s'), type := some target }, [.scalar s'],
          fun args => ?_, ?_, fun write => ⟨write (.scalar s'), ?_, ?_⟩⟩
        · rw [← replaceLast_append args (.scalar s) (.scalar s')]
          simp only [Compiled.convert, hs, hcoerce]
          rfl
        · intro w hw
          cases hw
          exact ⟨rfl, htext⟩
        · simp only [inlineConvert, hs, hcoerce]
          rfl
        · rw [htext]
          exact .mark _
  · exact hkeep
  · exact hkeep

/-- A member of a host object takes the place of the object. -/
theorem hostMember (hx : Emits x y) (name kind : String) :
    Emits (x >>= fun c => c.hostMember name kind)
      fun write => y write >>= fun c => inlineMember write c name kind := by
  refine hx.andThen fun c new out hv _ => ?_
  rcases c with ⟨text, _ | s | items | ⟨typeName, members⟩, type⟩
  · exact (fail (.expression (.notAnObject name kind))).congr (fun _ => rfl) fun _ => rfl
  · exact (fail (.expression (.notAnObject name kind))).congr (fun _ => rfl) fun _ => rfl
  · exact (fail (.expression (.notAnObject name kind))).congr (fun _ => rfl) fun _ => rfl
  · obtain ⟨rfl, -⟩ := hv _ rfl
    cases hm : (HostValue.object typeName members).member? name with
    | none =>
      refine (fail (.expression (.noMember typeName name))).congr (fun args => ?_) fun write => ?_
      · simp only [Compiled.hostMember, hm]
        rfl
      · simp only [inlineMember, hm]
    | some v =>
      refine (placeholder v).congr (fun args => ?_) fun write => ?_
      · simp only [Compiled.hostMember, hm]
        rw [modify_bind]
        exact congrArg (Compiled.placeholder v) (dropLast_append args _).symm
      · simp only [inlineMember, hm]

end Replaced

theorem property (m : Mapping) (name : String) :
    Emits (liftM (m.property name)) fun _ => m.property name := by
  cases h : m.memberColumn name with
  | error e =>
    refine (fail e).congr (fun args => ?_) fun write => ?_
    · rw [lift_apply, Mapping.property, h]
      rfl
    · rw [Mapping.property, h]
      rfl
  | ok c =>
    have hp : m.property name =
        .ok { text := quoteIdentifier c.name, type := some c.dataType } := by
      rw [Mapping.property, h]
      rfl
    refine Or.inr ⟨{ text := quoteIdentifier c.name, type := some c.dataType }, [], fun args => ?_,
      nofun, fun write => ⟨quoteIdentifier c.name, hp, .quoted c.name⟩⟩
    rw [lift_apply, hp, List.append_nil]
    rfl

/-! ### Calls -/

/-- Steps that each emit, one after the other. -/
def All (xs : List (Compiling Compiled))
    (ys : (HostValue → String) → List (Except Error Compiled)) : Prop :=
  (∃ e, (∀ args, each xs args = .error e) ∧ ∀ write, (ys write).mapM id = .error e) ∨
    ∃ ps : List (Compiled × List HostValue),
      (∀ args, each xs args = .ok (ps.map Prod.fst, args ++ ps.flatMap Prod.snd)) ∧
      ∀ write, ∃ rs : List (Compiled × List HostValue × String),
      rs.map (fun r => (r.1, r.2.1)) = ps ∧
        (ys write).mapM id = .ok (rs.map fun r => { r.1 with text := r.2.2 }) ∧
        ∀ r ∈ rs, Marks.Fits write r.1.text r.2.1 r.2.2

theorem all_nil : All [] fun _ => [] :=
  Or.inr ⟨[], fun args => by rw [List.flatMap_nil, List.append_nil]; rfl, fun _ => ⟨[], rfl, rfl, nofun⟩⟩

theorem all_cons {x : Compiling Compiled} {y : (HostValue → String) → Except Error Compiled}
    {xs : List (Compiling Compiled)} {ys : (HostValue → String) → List (Except Error Compiled)}
    (hx : Emits x y) (hxs : All xs ys) : All (x :: xs) fun write => y write :: ys write := by
  have hmap : ∀ write, (y write :: ys write).mapM id =
      (do let a ← y write; let as ← (ys write).mapM id; return a :: as) := fun write =>
    List.mapM_cons
  unfold All
  simp only [each_cons, hmap]
  rcases hx with ⟨e, hx, hy⟩ | ⟨c, new, hx, -, hy⟩
  · exact Or.inl ⟨e, fun args => bind_error (hx args), fun write => by simp only [hy]; rfl⟩
  rcases hxs with ⟨e, hxs, hys⟩ | ⟨ps, hxs, hys⟩
  · refine Or.inl ⟨e, fun args => ?_, fun write => ?_⟩
    · rw [bind_ok (hx args), bind_error (hxs _)]
    · obtain ⟨out, hout, -⟩ := hy write
      simp only [hout, hys]
      rfl
  · refine Or.inr ⟨(c, new) :: ps, fun args => ?_, fun write => ?_⟩
    · rw [bind_ok (hx args), bind_ok (hxs _), List.append_assoc]
      rfl
    · obtain ⟨out, hout, hfits⟩ := hy write
      obtain ⟨rs, hrs, hok, hall⟩ := hys write
      refine ⟨(c, new, out) :: rs, by rw [List.map_cons, hrs], by simp only [hout, hok]; rfl, ?_⟩
      intro r hr
      rcases List.mem_cons.mp hr with rfl | hr
      · exact hfits
      · exact hall r hr

theorem function {name : String} (hn : name.toList.all Marks.isPlain = true)
    {xs : List (Compiling Compiled)} {ys : (HostValue → String) → List (Except Error Compiled)}
    (h : All xs ys) : Emits (do return function name (← each xs))
      fun write => do return function name (← (ys write).mapM id) := by
  rcases h with ⟨e, hxs, hys⟩ | ⟨ps, hxs, hys⟩
  · exact Or.inl ⟨e, fun args => bind_error (hxs args), fun write => by simp only [hys]; rfl⟩
  · refine Or.inr ⟨Compiled.function name (ps.map Prod.fst), ps.flatMap Prod.snd,
      fun args => bind_ok (hxs args), nofun, fun write => ?_⟩
    obtain ⟨rs, rfl, hok, hall⟩ := hys write
    refine ⟨(Compiled.function name (rs.map fun r => { r.1 with text := r.2.2 })).text,
      by simp only [hok]; rfl, ?_⟩
    have hparts := Marks.Fits.intercalate write
      (rs.map fun r => (r.1.text, r.2.1, r.2.2)) (by
        intro p hp
        obtain ⟨r, hr, rfl⟩ := List.mem_map.mp hp
        exact hall r hr)
    have hname : Marks.Fits write (lowerCase name) [] (lowerCase name) :=
      .plain (isPlain_lowerCase hn)
    have hopen : Marks.Fits write "(" [] "(" := .plain (by decide)
    have hclose : Marks.Fits write ")" [] ")" := .plain (by decide)
    have := ((hname.append hopen).append hparts).append hclose
    rw [List.append_nil, List.append_nil, List.nil_append] at this
    unfold Compiled.function
    simpa only [List.map_map, List.flatMap_map, Function.comp_def] using this

theorem all_of_forall₂ {xs : List (Compiling Compiled)}
    {ys : List ((HostValue → String) → Except Error Compiled)} (h : List.Forall₂ Emits xs ys) :
    All xs fun write => ys.map fun y => y write := by
  induction h with
  | nil => exact all_nil
  | cons hx _ ih => exact all_cons hx ih

/-- The names of the calls without a receiver that have a rule of their own, with the number of
their arguments. -/
def calls : List (String × Nat) := [("like", 2), ("contains", 2)]

/-- The names of the calls with a receiver that have a rule of their own, with the number of their
arguments. -/
def methods : List (String × Nat) :=
  [("contains", 1), ("starts_with", 1), ("ends_with", 1), ("equals", 1), ("to_lower", 0),
    ("to_upper", 0)]

theorem call_other {name : String} {xs : List (Compiling Compiled)}
    (h : (name, xs.length) ∉ calls) :
    Compiled.call name xs = do return Compiled.function name (← each xs) := by
  unfold Compiled.call
  split
  · exact absurd (by simp [calls]) h
  · exact absurd (by simp [calls]) h
  · rfl

theorem inlineCall_other {name : String} {ys : List (Except Error Compiled)}
    (h : (name, ys.length) ∉ calls) :
    inlineCall name ys = do return Compiled.function name (← ys.mapM id) := by
  unfold inlineCall
  split
  · exact absurd (by simp [calls]) h
  · exact absurd (by simp [calls]) h
  · rfl

theorem method_other {x : Compiling Compiled} {name : String} {xs : List (Compiling Compiled)}
    (h : (name, xs.length) ∉ methods) :
    Compiled.method x name xs = do return Compiled.function name (← each xs) := by
  unfold Compiled.method
  split
  · exact absurd (by simp [methods]) h
  · exact absurd (by simp [methods]) h
  · exact absurd (by simp [methods]) h
  · exact absurd (by simp [methods]) h
  · exact absurd (by simp [methods]) h
  · exact absurd (by simp [methods]) h
  · rfl

theorem inlineMethod_other {y : Except Error Compiled} {name : String}
    {ys : List (Except Error Compiled)} (h : (name, ys.length) ∉ methods) :
    inlineMethod y name ys = do return Compiled.function name (← ys.mapM id) := by
  unfold inlineMethod
  split
  · exact absurd (by simp [methods]) h
  · exact absurd (by simp [methods]) h
  · exact absurd (by simp [methods]) h
  · exact absurd (by simp [methods]) h
  · exact absurd (by simp [methods]) h
  · exact absurd (by simp [methods]) h
  · rfl

theorem call {name : String} (hn : name.toList.all Marks.isPlain = true)
    {xs : List (Compiling Compiled)} {ys : List ((HostValue → String) → Except Error Compiled)}
    (h : List.Forall₂ Emits xs ys) :
    Emits (Compiled.call name xs) fun write => inlineCall name (ys.map fun y => y write) := by
  by_cases hmem : (name, xs.length) ∈ calls
  · simp only [calls, List.mem_cons, List.not_mem_nil, or_false, Prod.mk.injEq] at hmem
    rcases hmem with ⟨rfl, hlen⟩ | ⟨rfl, hlen⟩
    · obtain ⟨a, b, rfl⟩ := List.length_eq_two.mp hlen
      obtain _ | ⟨ha, _ | ⟨hb, _ | _⟩⟩ := h
      exact joined' ha hb (by decide) (by decide) (by decide)
    · obtain ⟨a, b, rfl⟩ := List.length_eq_two.mp hlen
      obtain _ | ⟨ha, _ | ⟨hb, _ | _⟩⟩ := h
      exact member ha hb
  · refine (function hn (all_of_forall₂ h)).congr (fun _ => by rw [call_other hmem]) fun write => ?_
    rw [inlineCall_other]
    rwa [List.length_map, ← h.length_eq]

theorem method {x : Compiling Compiled} {y : (HostValue → String) → Except Error Compiled}
    (hx : Emits x y) {name : String} (hn : name.toList.all Marks.isPlain = true)
    {xs : List (Compiling Compiled)} {ys : List ((HostValue → String) → Except Error Compiled)}
    (h : List.Forall₂ Emits xs ys) :
    Emits (Compiled.method x name xs)
      fun write => inlineMethod (y write) name (ys.map fun y => y write) := by
  by_cases hmem : (name, xs.length) ∈ methods
  · simp only [methods, List.mem_cons, List.not_mem_nil, or_false, Prod.mk.injEq,
      List.length_eq_zero_iff, List.length_eq_one_iff] at hmem
    rcases hmem with ⟨rfl, a, rfl⟩ | ⟨rfl, a, rfl⟩ | ⟨rfl, a, rfl⟩ | ⟨rfl, a, rfl⟩ | ⟨rfl, rfl⟩ |
      ⟨rfl, rfl⟩
    · obtain _ | ⟨ha, _ | _⟩ := h
      exact contains hx ha
    · obtain _ | ⟨ha, _ | _⟩ := h
      exact joined' hx ha (by decide) (by decide) (by decide)
    · obtain _ | ⟨ha, _ | _⟩ := h
      exact joined' hx ha (by decide) (by decide) (by decide)
    · obtain _ | ⟨ha, _ | _⟩ := h
      exact joined' hx ha (by decide) (by decide) (by decide)
    · cases h
      exact wrapped hx (by decide) (by decide)
    · cases h
      exact wrapped hx (by decide) (by decide)
  · refine (function hn (all_of_forall₂ h)).congr (fun _ => by rw [method_other hmem]) fun write => ?_
    rw [inlineMethod_other]
    rwa [List.length_map, ← h.length_eq]

/-! ### Operations -/

theorem isPlain_sign {op : BinaryOperator} {spelling : String} (h : op.spelling = some spelling)
    (null : Bool) : (sign op spelling null).toList.all Marks.isPlain = true := by
  cases op <;> cases h <;> cases null <;> decide

/-- A comparison, a logical or a bitwise operation. -/
theorem operation {x x' : Compiling Compiled}
    {y y' : (HostValue → String) → Except Error Compiled} (hx : Emits x y) (hx' : Emits x' y')
    {op : BinaryOperator} {spelling : String} (h : op.spelling = some spelling) :
    Emits (do
        let a ← x
        let b ← x'
        return Compiled.operation op spelling a b)
      fun write => do
        let a ← y write
        let b ← y' write
        return Compiled.operation op spelling a b := by
  have hopen : "(".toList.all Marks.isPlain = true := by decide
  have hclose : ")".toList.all Marks.isPlain = true := by decide
  have hspace : " ".toList.all Marks.isPlain = true := by decide
  refine joined (fun v w =>
    " " ++ sign op spelling (v.any HostValue.isNull || w.any HostValue.isNull) ++ " ")
    hx hx' hopen (fun v w => ?_) hclose
  rw [String.toList_append, String.toList_append, List.all_append, List.all_append, hspace,
    isPlain_sign h]
  rfl

end Emits

/-! ## Expressions that emit -/

namespace Expression

mutual

/-- Whether every call in the expression has a name without marks and quotes. -/
def namesPlain : Expression → Bool
  | .member object _ => object.namesPlain
  | .binary _ left right => left.namesPlain && right.namesPlain
  | .call name arguments => name.toList.all Marks.isPlain && namesPlainEach arguments
  | .method receiver name arguments =>
    name.toList.all Marks.isPlain && receiver.namesPlain && namesPlainEach arguments
  | .convert operand _ => operand.namesPlain
  | _ => true

def namesPlainEach : List Expression → Bool
  | [] => true
  | e :: r => e.namesPlain && namesPlainEach r

end

end Expression

namespace Mapping

open Expression

theorem compile_member {m : Mapping} {object : Expression} (h : object ≠ .parameter)
    (name : String) :
    m.compile (.member object name) =
      m.compile object >>= fun c => c.hostMember name object.kind := by
  cases object with
  | parameter => exact absurd rfl h
  | _ => rfl

theorem inline_member {m : Mapping} {write : HostValue → String} {object : Expression}
    (h : object ≠ .parameter) (name : String) : m.inline write (.member object name) =
      m.inline write object >>= fun c => Compiled.inlineMember write c name object.kind := by
  cases object with
  | parameter => exact absurd rfl h
  | _ => rfl

theorem inlineEach_eq (m : Mapping) (write : HostValue → String) (es : List Expression) :
    m.inlineEach write es = (es.map fun e write => m.inline write e).map fun y => y write := by
  induction es with
  | nil => rfl
  | cons e r ih => rw [inlineEach, ih]; rfl

mutual

/-- Every expression whose calls have plain names emits. -/
theorem emits_compile (m : Mapping) : (e : Expression) → e.namesPlain = true →
    Emits (m.compile e) fun write => m.inline write e
  | .constant v, _ => .placeholder v
  | .member object name, h => by
    by_cases ho : object = .parameter
    · subst ho
      exact .property m name
    · exact ((m.emits_compile object h).hostMember name object.kind).congr
        (fun _ => by rw [compile_member ho]) fun _ => by rw [inline_member ho]
  | .binary op left right, h => by
    rw [namesPlain, Bool.and_eq_true] at h
    cases hs : op.spelling with
    | none =>
      refine (Emits.fail (.expression (.noOperator op.name))).congr (fun args => ?_) fun write => ?_
      · simp only [compile, hs]
      · simp only [inline, hs]
    | some spelling =>
      refine ((m.emits_compile left h.1).operation (m.emits_compile right h.2) hs).congr
        (fun args => ?_) fun write => ?_
      · simp only [compile, hs]
      · simp only [inline, hs]
  | .call name arguments, h => by
    rw [namesPlain, Bool.and_eq_true] at h
    exact (Emits.call h.1 (m.emits_compileEach arguments h.2)).congr (fun _ => rfl)
      fun write => by rw [← m.inlineEach_eq]; rfl
  | .method receiver name arguments, h => by
    rw [namesPlain, Bool.and_eq_true, Bool.and_eq_true] at h
    exact (Emits.method (m.emits_compile receiver h.1.2) h.1.1
      (m.emits_compileEach arguments h.2)).congr (fun _ => rfl)
      fun write => by rw [← m.inlineEach_eq]; rfl
  | .convert operand target, h => (m.emits_compile operand h).convert target
  | .parameter, _ => .fail _
  | .unary _ _, _ => .fail _
  | .conditional _ _ _, _ => .fail _

theorem emits_compileEach (m : Mapping) : (es : List Expression) → namesPlainEach es = true →
    List.Forall₂ Emits (m.compileEach es) (es.map fun e write => m.inline write e)
  | [], _ => .nil
  | e :: r, h => by
    rw [namesPlainEach, Bool.and_eq_true] at h
    exact .cons (m.emits_compile e h.1) (m.emits_compileEach r h.2)

end

/-- A successful compilation has appended values that do not depend on the arguments before them,
one for each mark of the text. Written over the marks in this order they give the text in which
every value stands in its place. A result with a value has appended just this value. -/
theorem compile_fills_marks (m : Mapping) {e : Expression} (he : e.namesPlain = true)
    {before after : List HostValue} {c : Compiled} (h : m.compile e before = .ok (c, after)) :
    ∃ new, after = before ++ new ∧ (∀ args, m.compile e args = .ok (c, args ++ new)) ∧
      Marks.count false c.text.toList = new.length ∧
      (∀ write, ∃ r, m.inline write e = .ok r ∧ r.value = c.value ∧ r.type = c.type ∧
        Marks.fill write false c.text.toList new = r.text.toList) ∧
      ∀ v, c.value = some v → new = v.elements := by
  rcases m.emits_compile e he with ⟨f, hx, -⟩ | ⟨d, new, hx, hv, hy⟩
  · rw [hx] at h
    cases h
  · rw [hx] at h
    cases h
    refine ⟨new, rfl, hx, ?_, fun write => ?_, fun v hval => (hv v hval).1⟩
    · obtain ⟨out, -, hfits⟩ := hy fun _ => ""
      have hcount := (hfits [] []).1
      rwa [List.append_nil] at hcount
    · obtain ⟨out, hout, hfits⟩ := hy write
      have hfill := (hfits [] []).2
      rw [List.append_nil, List.append_nil] at hfill
      exact ⟨_, hout, rfl, rfl, hfill.trans (List.append_nil _)⟩

/-- A converted constant among the items of a list, behind an argument of an earlier condition. -/
theorem compile_fills_marks_isIn :
    let e := (Expression.convert (.constant (.scalar (.int 7))) .text).isIn [.text "7", .text "?"]
    ∃ c after, (default : Mapping).compile e [.scalar .null] = .ok (c, after) ∧
      ∃ new, after = [.scalar .null] ++ new ∧
        (∀ args, (default : Mapping).compile e args = .ok (c, args ++ new)) ∧
        Marks.count false c.text.toList = new.length ∧
        (∀ write, ∃ r, (default : Mapping).inline write e = .ok r ∧ r.value = c.value ∧
          r.type = c.type ∧ Marks.fill write false c.text.toList new = r.text.toList) ∧
        ∀ v, c.value = some v → new = v.elements :=
  ⟨{ text := "(? in (?,?))" }, [.scalar .null, .scalar (.text "7"), .scalar (.text "7"),
    .scalar (.text "?")], rfl, compile_fills_marks default (by decide) rfl⟩

end Mapping

end RecordMapper
