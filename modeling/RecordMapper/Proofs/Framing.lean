import RecordMapper.Proofs.Payloads

/-!
# Arguments of before

Compiling an expression neither reads nor changes the arguments that stand before its own.

1. `Compiling.Framed`: a step has one outcome whatever stands before, and appends the same values.
2. `Compiled.Carries`: what a node with a value has appended are the elements of this value.
3. `Mapping.framed_compile`: every expression is compiled by such a step.
-/

namespace RecordMapper

/-- Where a node has a value, the values that it has appended are the elements of it. -/
def Compiled.Carries (c : Compiled) (own : List HostValue) : Prop :=
  ∀ v, c.value = some v → own = v.elements

namespace Compiling

open Compiled

variable {α β : Type}

/-- A step with one outcome for all arguments of before; where it succeeds it appends the same
values to them. -/
def Framed (P : α → List HostValue → Prop) (x : Compiling α) : Prop :=
  (∃ e, ∀ args, x args = .error e) ∨ ∃ a own, P a own ∧ ∀ args, x args = .ok (a, args ++ own)

namespace Framed

variable {x : Compiling α} {f : α → Compiling β} {P P' : α → List HostValue → Prop} {Q : β → Prop}

theorem imp (hx : Framed P x) (h : ∀ a own, P a own → P' a own) : Framed P' x := by
  rcases hx with he | ⟨a, own, ha, hx⟩
  · exact .inl he
  · exact .inr ⟨a, own, h a own ha, hx⟩

theorem pure {b : β} (hb : Q b) : Framed (fun b _ => Q b) (pure b) :=
  .inr ⟨b, [], hb, fun args => by rw [List.append_nil]; rfl⟩

theorem throw (e : Error) : Framed P (throw e) := .inl ⟨e, fun _ => rfl⟩

theorem append (own : List HostValue) :
    Framed (fun _ _ => True) (modify (· ++ own) : Compiling Unit) :=
  .inr ⟨(), own, trivial, fun _ => rfl⟩

/-- What is compiled with arguments of its own sees no others. -/
theorem alone (x : Compiling Compiled) : Framed (fun _ _ => True) (alone x) := by
  cases hx : x [] with
  | error e => exact .inl ⟨e, fun args => by unfold Compiled.alone; rw [hx]; rfl⟩
  | ok p =>
    refine .inr ⟨p, [], trivial, fun args => ?_⟩
    unfold Compiled.alone
    rw [hx, List.append_nil]
    rfl

theorem bind (hx : Framed P x) (hf : ∀ a, Framed (fun b _ => Q b) (f a)) :
    Framed (fun b _ => Q b) (x >>= f) := by
  rcases hx with ⟨e, hx⟩ | ⟨a, own, -, hx⟩
  · exact .inl ⟨e, fun args => bind_error (hx args)⟩
  rcases hf a with ⟨e, hf⟩ | ⟨b, own', hb, hf⟩
  · exact .inl ⟨e, fun args => (bind_ok (hx args)).trans (hf _)⟩
  · refine .inr ⟨b, own ++ own', hb, fun args => (bind_ok (hx args)).trans ?_⟩
    rw [hf, List.append_assoc]

section Nodes

variable {x : Compiling Compiled} {xs : List (Compiling Compiled)}
  {P : Compiled → List HostValue → Prop}

theorem each (h : ∀ x ∈ xs, Framed P x) : Framed (fun _ _ => True) (each xs) := by
  induction xs with
  | nil => exact pure trivial
  | cons x xs ih =>
    have hxs := ih fun y hy => h y (List.mem_cons_of_mem _ hy)
    rw [each_cons]
    exact (h x List.mem_cons_self).bind fun a => hxs.bind fun as => pure trivial

theorem call (name : String) (h : ∀ x ∈ xs, Framed P x) :
    Framed (fun c _ => c.value = none) (Compiled.call name xs) := by
  unfold Compiled.call
  split
  · exact (h _ (by simp)).bind fun a => (h _ (by simp)).bind fun b => pure rfl
  · exact (alone _).bind fun p => (h _ (by simp)).bind fun item => (append _).bind fun _ => pure rfl
  · exact (each h).bind fun as => pure rfl

theorem method (hx : Framed P x) (name : String) (h : ∀ y ∈ xs, Framed P y) :
    Framed (fun c _ => c.value = none) (Compiled.method x name xs) := by
  unfold Compiled.method
  split
  · have hitem := h _ (List.mem_singleton_self _)
    refine (alone _).bind fun p => ?_
    dsimp only
    split
    · exact (append _).bind fun _ => hitem.bind fun item => pure rfl
    · exact hitem.bind fun item => (append _).bind fun _ => pure rfl
  · exact hx.bind fun a => (h _ (by simp)).bind fun b => pure rfl
  · exact hx.bind fun a => (h _ (by simp)).bind fun b => pure rfl
  · exact hx.bind fun a => (h _ (by simp)).bind fun b => pure rfl
  · exact hx.bind fun a => pure rfl
  · exact hx.bind fun a => pure rfl
  · exact (each h).bind fun as => pure rfl

theorem placeholder (v : HostValue) : Framed Carries (placeholder v) :=
  .inr ⟨_, _, fun _ hw => by cases hw; rfl, Emits.placeholder_apply v⟩

/-- The coerced value takes the place of the operand's only argument. -/
theorem convert (hx : Framed Carries x) (target : DataType) :
    Framed Carries (x >>= fun c => c.convert target) := by
  rcases hx with ⟨e, hx⟩ | ⟨c, own, hc, hx⟩
  · exact .inl ⟨e, fun args => bind_error (hx args)⟩
  have hkeep : (∀ args, c.convert target args = .ok ({ c with type := some target }, args)) →
      Framed Carries (x >>= fun c => c.convert target) := fun h =>
    .inr ⟨{ c with type := some target }, own, hc, fun args => (bind_ok (hx args)).trans (h _)⟩
  rcases c with ⟨text, _ | v | items | ⟨typeName, members⟩, type⟩
  · exact hkeep fun _ => rfl
  · obtain rfl := hc _ rfl
    cases hv : v.isNull with
    | true => exact hkeep fun _ => by simp only [Compiled.convert, hv, if_true]; rfl
    | false =>
      cases hcoerce : v.coerce target with
      | error fault =>
        refine .inl ⟨.type fault, fun args => (bind_ok (hx args)).trans ?_⟩
        simp only [Compiled.convert, hv, hcoerce]
        rfl
      | ok v' =>
        refine .inr ⟨⟨text, some (.scalar v'), some target⟩, [.scalar v'],
          fun w hw => by cases hw; rfl, fun args => (bind_ok (hx args)).trans ?_⟩
        rw [← Emits.replaceLast_append args (.scalar v) (.scalar v')]
        simp only [Compiled.convert, hv, hcoerce]
        rfl
  · exact hkeep fun _ => rfl
  · exact hkeep fun _ => rfl

/-- The member takes the place of its object, which is the only argument. -/
theorem hostMember (hx : Framed Carries x) (name kind : String) :
    Framed Carries (x >>= fun c => c.hostMember name kind) := by
  rcases hx with ⟨e, hx⟩ | ⟨c, own, hc, hx⟩
  · exact .inl ⟨e, fun args => bind_error (hx args)⟩
  rcases c with ⟨text, _ | v | items | ⟨typeName, members⟩, type⟩
  · exact .inl ⟨_, fun args => bind_ok (hx args)⟩
  · exact .inl ⟨_, fun args => bind_ok (hx args)⟩
  · exact .inl ⟨_, fun args => bind_ok (hx args)⟩
  · obtain rfl := hc _ rfl
    cases hm : (HostValue.object typeName members).member? name with
    | none =>
      refine .inl ⟨.expression (.noMember typeName name), fun args => (bind_ok (hx args)).trans ?_⟩
      simp only [Compiled.hostMember, hm]
      rfl
    | some v =>
      refine .inr ⟨⟨placed (fun _ => "?") v, some v, none⟩, v.elements, fun _ hw => by cases hw; rfl,
        fun args => (bind_ok (hx args)).trans ?_⟩
      rw [← Emits.placeholder_apply v args]
      simp only [Compiled.hostMember, hm]
      rw [modify_bind]
      exact congrArg (Compiled.placeholder v) (Emits.dropLast_append args _)

theorem property (m : Mapping) (name : String) :
    Framed Carries (liftM (m.property name) : Compiling Compiled) := by
  unfold Mapping.property
  cases h : m.memberColumn name with
  | error e => exact .inl ⟨e, fun _ => rfl⟩
  | ok c =>
    exact .inr ⟨⟨quoteIdentifier c.name, none, some c.dataType⟩, [], nofun, fun args => by
      rw [List.append_nil]
      rfl⟩

end Nodes

end Framed

end Compiling

namespace Mapping

open Compiling Compiled

theorem carries_of_none {c : Compiled} {own : List HostValue} (h : c.value = none) :
    c.Carries own := by
  intro v hv
  rw [h] at hv
  cases hv

mutual

/-- **Compiling is blind to what stands before.** Every expression has one outcome for all arguments
of before, and appends the same values to them. -/
theorem framed_compile (m : Mapping) : (e : Expression) → Framed Carries (m.compile e)
  | .constant v => .placeholder v
  | .member object name => by
    by_cases ho : object = .parameter
    · subst ho
      exact .property m name
    · rw [compile_member ho]
      exact (m.framed_compile object).hostMember name _
  | .binary op left right => by
    rw [compile]
    cases op.spelling with
    | none => exact .throw _
    | some spelling =>
      exact ((m.framed_compile left).bind fun a => (m.framed_compile right).bind fun b =>
        .pure (Q := fun c : Compiled => c.value = none) rfl).imp fun _ _ => carries_of_none
  | .call name arguments =>
    (Framed.call name (m.framed_compileEach arguments)).imp fun _ _ => carries_of_none
  | .method receiver name arguments =>
    ((m.framed_compile receiver).method name (m.framed_compileEach arguments)).imp
      fun _ _ => carries_of_none
  | .convert operand target => (m.framed_compile operand).convert target
  | .parameter => .throw _
  | .unary _ _ => .throw _
  | .conditional _ _ _ => .throw _

theorem framed_compileEach (m : Mapping) : (es : List Expression) →
    ∀ x ∈ m.compileEach es, Framed Carries x
  | [], _, h => nomatch h
  | e :: r, x, h => by
    rcases List.mem_cons.mp h with rfl | h
    · exact m.framed_compile e
    · exact m.framed_compileEach r x h

end

/-- What an expression compiles to alone it compiles to behind any arguments. -/
theorem compile_behind {m : Mapping} {e : Expression} {c : Compiled} {own : List HostValue}
    (h : m.compile e [] = .ok (c, own)) (args : List HostValue) :
    m.compile e args = .ok (c, args ++ own) := by
  rcases m.framed_compile e with ⟨f, hx⟩ | ⟨d, own', -, hx⟩
  · rw [hx] at h
    cases h
  · rw [hx] at h
    cases h
    exact hx args

end Mapping

end RecordMapper
