import RecordMapper.Proofs.Compilation

/-!
# The text does not depend on the content of constants

Compiling looks at the values it carries: null turns `=` into `is`, a text turns a membership test
into a pattern match, a conversion replaces a value and a member is read out of an object. None of
this looks further than the kind of a value.

1. `Value.Alike`: values of one kind. Coercion keeps them alike.
2. `HostValue.Alike`, `Expression.Alike`: one shape, with contents that may differ.
3. `Compiling.Alike`: two steps that, where both succeed, give one text and one type and append
   equally many values. Each node keeps steps alike.
4. Expressions of one shape have one text (`Mapping.same_text_of_alike`).
-/

namespace RecordMapper

/-! ## Values of one kind -/

inductive Value.Alike : Value → Value → Prop
  | null : Alike .null .null
  | bool (b c : Bool) : Alike (.bool b) (.bool c)
  | int (i j : Int64) : Alike (.int i) (.int j)
  | float (x y : Float) : Alike (.float x) (.float y)
  | decimal (d e : Decimal) : Alike (.decimal d) (.decimal e)
  | text (s t : String) : Alike (.text s) (.text t)
  | blob (bs cs : Bytes) : Alike (.blob bs) (.blob cs)
  | timestamp (t u : Timestamp) : Alike (.timestamp t) (.timestamp u)
  | offsetTimestamp (t u : OffsetTimestamp) : Alike (.offsetTimestamp t) (.offsetTimestamp u)
  | interval (d e : Interval) : Alike (.interval d) (.interval e)
  | uuid (u w : Uuid) : Alike (.uuid u) (.uuid w)

namespace Value.Alike

variable {v w v' w' : Value} {t : DataType}

theorem isNull_eq (h : v.Alike w) : v.isNull = w.isNull := by cases h <;> rfl

theorem isText_eq (h : v.Alike w) : v.isText = w.isText := by cases h <;> rfl

theorem inRange {i j : Int64} (hv : Value.inRange i t = .ok v) (hw : Value.inRange j t = .ok w) :
    v.Alike w := by
  unfold Value.inRange at hv hw
  split at hv
  · split at hw
    · cases hv
      cases hw
      exact .int i j
    · cases hw
  · cases hv

/-- A float becomes an integer only by way of the range of the type. -/
theorem integralOfFloat_inRange {x : Float} (h : integralOfFloat x t = .ok v) :
    ∃ i, Value.inRange i t = .ok v := by
  simp only [integralOfFloat] at h
  split at h
  · split at h
    · cases h
    · exact ⟨_, h⟩
  · cases h

theorem toIntegral (h : v.Alike w) (hv : v.toIntegral t = .ok v') (hw : w.toIntegral t = .ok w') :
    v'.Alike w' := by
  cases h with
  | int i j => exact inRange hv hw
  | decimal d e => exact inRange hv hw
  | float x y =>
    obtain ⟨i, hi⟩ := integralOfFloat_inRange hv
    obtain ⟨j, hj⟩ := integralOfFloat_inRange hw
    exact inRange hi hj
  | _ =>
    cases hv
    cases hw
    constructor

theorem of_map_ok {α : Type} {x : Except TypeFault α} {f : α → Value} (h : x.map f = .ok v) :
    ∃ a, v = f a := by
  cases x with
  | error e => cases h
  | ok a => exact ⟨a, (Except.ok.inj h).symm⟩

/-- The kind of a coerced value depends on the type and on the kind of the value before. -/
theorem coerce (h : v.Alike w) (hv : v.coerce t = .ok v') (hw : w.coerce t = .ok w') :
    v'.Alike w' := by
  by_cases hi : t.isIntegral = true
  · have hcoerce : ∀ {a b : Value}, a.coerce t = .ok b → a.toIntegral t = .ok b := by
      intro a b hab
      cases a with
      | null => exact hab
      | _ => simpa only [Value.coerce, hi, if_true] using hab
    exact h.toIntegral (hcoerce hv) (hcoerce hw)
  · cases h with
    | float x y =>
      cases t with
      | decimal =>
        obtain ⟨d, rfl⟩ := of_map_ok hv
        obtain ⟨e, rfl⟩ := of_map_ok hw
        exact .decimal d e
      | _ => first | exact absurd rfl hi | (cases hv; cases hw; constructor)
    | text s s' =>
      cases t with
      | uuid =>
        obtain ⟨u, rfl⟩ := of_map_ok hv
        obtain ⟨u', rfl⟩ := of_map_ok hw
        exact .uuid u u'
      | _ => first | exact absurd rfl hi | (cases hv; cases hw; constructor)
    | _ => cases t <;> first | exact absurd rfl hi | (cases hv; cases hw; constructor)

end Value.Alike

/-! ## Constants and expressions of one shape -/

/-- Constants that differ in their contents only: scalars of one kind, lists of one length, objects
whose members have the same names and are alike again. -/
inductive HostValue.Alike : HostValue → HostValue → Prop
  | scalar {v w : Value} (h : v.Alike w) : Alike (.scalar v) (.scalar w)
  | list {items others : List Value} (h : items.length = others.length) :
      Alike (.list items) (.list others)
  | object {name name' : String} {members members' : List (String × HostValue)}
      (h : ∀ key, Option.Rel Alike ((HostValue.object name members).member? key)
        ((HostValue.object name' members').member? key)) :
      Alike (.object name members) (.object name' members')

mutual

/-- Expressions that differ in the contents of their constants only. -/
inductive Expression.Alike : Expression → Expression → Prop
  | parameter : Alike .parameter .parameter
  | constant {v w : HostValue} (h : v.Alike w) : Alike (.constant v) (.constant w)
  | member {a b : Expression} (h : Alike a b) (name : String) :
      Alike (.member a name) (.member b name)
  | binary (op : BinaryOperator) {a b a' b' : Expression} (left : Alike a b) (right : Alike a' b') :
      Alike (.binary op a a') (.binary op b b')
  | call (function : String) {as bs : List Expression} (h : Expression.AlikeEach as bs) :
      Alike (.call function as) (.call function bs)
  | method {a b : Expression} (receiver : Alike a b) (function : String) {as bs : List Expression}
      (h : Expression.AlikeEach as bs) : Alike (.method a function as) (.method b function bs)
  | convert {a b : Expression} (h : Alike a b) (target : DataType) :
      Alike (.convert a target) (.convert b target)
  | unary (op : UnaryOperator) {a b : Expression} (h : Alike a b) :
      Alike (.unary op a) (.unary op b)
  | conditional {a b a' b' a'' b'' : Expression} (test : Alike a b) (ifTrue : Alike a' b')
      (ifFalse : Alike a'' b'') : Alike (.conditional a a' a'') (.conditional b b' b'')

inductive Expression.AlikeEach : List Expression → List Expression → Prop
  | nil : AlikeEach [] []
  | cons {a b : Expression} {as bs : List Expression} (head : Expression.Alike a b)
      (tail : AlikeEach as bs) : AlikeEach (a :: as) (b :: bs)

end

/-! ## Outcomes of one shape -/

namespace Compiled

/-- One text and one type, and values that are alike. -/
structure Alike (c d : Compiled) : Prop where
  text : c.text = d.text
  type : c.type = d.type
  value : Option.Rel HostValue.Alike c.value d.value

variable {a b c d : Compiled}

theorem Alike.refl (h : c.value = none) : c.Alike c := ⟨rfl, rfl, by rw [h]; exact .none⟩

theorem Alike.carriesNull_eq (h : c.Alike d) : c.carriesNull = d.carriesNull := by
  obtain ⟨text, value, type⟩ := c
  obtain ⟨text', value', type'⟩ := d
  obtain ⟨-, -, hv | -⟩ := h
  · cases hv with
    | scalar h => exact h.isNull_eq
    | _ => rfl
  · rfl

theorem Alike.isText_eq (h : c.Alike d) : c.isText = d.isText := by
  obtain ⟨text, value, type⟩ := c
  obtain ⟨text', value', type'⟩ := d
  obtain ⟨-, rfl, hv | -⟩ := h
  · cases hv with
    | scalar h => exact congrArg (type.any DataType.isText || ·) h.isText_eq
    | _ => rfl
  · rfl

theorem Alike.join_eq (h : c.Alike d) (h' : a.Alike b) (opening between closing : String) :
    join opening c between a closing = join opening d between b closing := by
  unfold join
  rw [h.text, h'.text]

theorem Alike.operation_eq (h : c.Alike d) (h' : a.Alike b) (op : BinaryOperator)
    (spelling : String) : operation op spelling c a = operation op spelling d b := by
  unfold operation
  rw [h.carriesNull_eq, h'.carriesNull_eq, h.join_eq h']

/-- A step from some arguments to others has appended a number of them. Where its outcome has a
value, they are the elements of this value. -/
def Appends (c : Compiled) (count : Nat) (args after : List HostValue) : Prop :=
  ∃ own, after = args ++ own ∧ own.length = count ∧ ∀ v, c.value = some v → own = v.elements

variable {m n : Nat} {args mid after : List HostValue}

/-- A node that appends what its operands append, one after the other. -/
theorem Appends.trans (ha : a.Appends m args mid) (hb : b.Appends n mid after)
    (hc : c.value = none) : c.Appends (m + n) args after := by
  obtain ⟨own, rfl, rfl, -⟩ := ha
  obtain ⟨own', rfl, rfl, -⟩ := hb
  refine ⟨own ++ own', List.append_assoc .., List.length_append, fun v hv => ?_⟩
  rw [hc] at hv
  cases hv

theorem Appends.node (ha : a.Appends n args after) (hc : c.value = none) :
    c.Appends n args after := by
  obtain ⟨own, h, hn, -⟩ := ha
  refine ⟨own, h, hn, fun v hv => ?_⟩
  rw [hc] at hv
  cases hv

/-- What was appended to no arguments can be appended to any. -/
theorem Appends.shift (ha : a.Appends n [] after) (args : List HostValue) :
    a.Appends n args (args ++ after) := by
  obtain ⟨own, h, hn, hv⟩ := ha
  exact ⟨own, by rw [h, List.nil_append], hn, hv⟩

end Compiled

namespace Compiling

open Compiled

/-- Where both steps succeed, their outcomes are alike and both append equally many arguments. -/
structure Alike (x y : Compiling Compiled) : Prop where
  outcome : ∀ {args args' after after' : List HostValue} {c d : Compiled},
    x args = .ok (c, after) → y args' = .ok (d, after') →
      c.Alike d ∧ ∃ n, c.Appends n args after ∧ d.Appends n args' after'

variable {x y x' y' : Compiling Compiled}

theorem Alike.throw {e e' : Error} : Alike (throw e) (throw e') := ⟨nofun⟩

/-- A value and another of its shape have as many marks and as many arguments. -/
theorem Alike.placeholder {v w : HostValue} (h : v.Alike w) :
    Alike (placeholder v) (placeholder w) := by
  refine ⟨fun {args args' after after' c d} hc hd => ?_⟩
  rw [Emits.placeholder_apply] at hc hd
  cases hc
  cases hd
  have happends : ∀ (u : HostValue) (args : List HostValue),
      ({ text := placed (fun _ => "?") u, value := some u } : Compiled).Appends u.elements.length
        args (args ++ u.elements) := fun u args =>
    ⟨u.elements, rfl, rfl, fun _ h => congrArg HostValue.elements (Option.some.inj h)⟩
  have hlength : v.elements.length = w.elements.length := by
    cases h with
    | list h => simpa [HostValue.elements] using h
    | _ => rfl
  have htext : placed (fun _ => "?") v = placed (fun _ => "?") w := by
    cases h with
    | list h => simp only [placed, List.map_const', h]
    | _ => rfl
  refine ⟨⟨htext, rfl, .some h⟩, v.elements.length, happends v args, ?_⟩
  rw [hlength]
  exact happends w args'

theorem Alike.property (m : Mapping) (name : String) :
    Alike (m.property name) (m.property name) := by
  refine ⟨fun {args args' after after' c d} hc hd => ?_⟩
  unfold Mapping.property at hc hd
  cases hm : m.memberColumn name with
  | error e =>
    rw [hm] at hc
    cases hc
  | ok k =>
    rw [hm] at hc hd
    cases hc
    cases hd
    exact ⟨.refl rfl, 0, ⟨[], (List.append_nil _).symm, rfl, nofun⟩,
      ⟨[], (List.append_nil _).symm, rfl, nofun⟩⟩

/-! ### Nodes of operands -/

section Operands

/-- A node of two operands in the order of the text. -/
theorem Alike.joined (hx : Alike x y) (hx' : Alike x' y') {f : Compiled → Compiled → Compiled}
    (hf : ∀ {a b a' b' : Compiled}, a.Alike b → a'.Alike b' → f a a' = f b b')
    (hvalue : ∀ a a', (f a a').value = none) :
    Alike (do let a ← x; let a' ← x'; return f a a') (do let b ← y; let b' ← y'; return f b b') := by
  refine ⟨fun {args args' after after' c d} hc hd => ?_⟩
  obtain ⟨a, mid, ha, hc⟩ := of_bind_ok hc
  obtain ⟨a', _, ha', hc⟩ := of_bind_ok hc
  obtain ⟨b, mid', hb, hd⟩ := of_bind_ok hd
  obtain ⟨b', _, hb', hd⟩ := of_bind_ok hd
  cases hc
  cases hd
  obtain ⟨hab, n, hna, hnb⟩ := hx.outcome ha hb
  obtain ⟨hab', n', hna', hnb'⟩ := hx'.outcome ha' hb'
  rw [← hf hab hab']
  exact ⟨.refl (hvalue a a'), n + n', hna.trans hna' (hvalue a a'), hnb.trans hnb' (hvalue a a')⟩

theorem Alike.wrapped (hx : Alike x y) (opening closing : String) :
    Alike (do return wrap opening (← x) closing) (do return wrap opening (← y) closing) := by
  refine ⟨fun {args args' after after' c d} hc hd => ?_⟩
  obtain ⟨a, _, ha, hc⟩ := of_bind_ok hc
  obtain ⟨b, _, hb, hd⟩ := of_bind_ok hd
  cases hc
  cases hd
  obtain ⟨hab, n, hna, hnb⟩ := hx.outcome ha hb
  unfold wrap
  rw [← hab.text]
  exact ⟨.refl rfl, n, hna.node rfl, hnb.node rfl⟩

section Collection

variable {a b : Compiled} {own own' : List HostValue} {n : Nat}

/-- A membership test: the arguments of the collection go behind those of the item. -/
theorem Alike.item (hab : a.Alike b) (ha : a.Appends n [] own) (hb : b.Appends n [] own')
    (hx : Alike x y) :
    Alike (do let item ← x; modify (· ++ own); return join "(" item " in " a ")")
      (do let item ← y; modify (· ++ own'); return join "(" item " in " b ")") := by
  refine ⟨fun {args args' after after' c d} hc hd => ?_⟩
  obtain ⟨i, mid, hi, hc⟩ := of_bind_ok hc
  obtain ⟨j, mid', hj, hd⟩ := of_bind_ok hd
  cases hc
  cases hd
  obtain ⟨hij, n', hni, hnj⟩ := hx.outcome hi hj
  rw [← hij.join_eq hab]
  exact ⟨.refl rfl, n' + n, hni.trans (ha.shift mid) rfl, hnj.trans (hb.shift mid') rfl⟩

/-- A substring test: the arguments of the receiver go before those of the item. -/
theorem Alike.substring (hab : a.Alike b) (ha : a.Appends n [] own) (hb : b.Appends n [] own')
    (hx : Alike x y) :
    Alike (do modify (· ++ own); let item ← x; return join "(" a " like ('%'||" item "||'%'))")
      (do modify (· ++ own'); let item ← y; return join "(" b " like ('%'||" item "||'%'))") := by
  refine ⟨fun {args args' after after' c d} hc hd => ?_⟩
  rw [modify_bind] at hc hd
  obtain ⟨i, _, hi, hc⟩ := of_bind_ok hc
  obtain ⟨j, _, hj, hd⟩ := of_bind_ok hd
  cases hc
  cases hd
  obtain ⟨hij, n', hni, hnj⟩ := hx.outcome hi hj
  rw [← hab.join_eq hij]
  exact ⟨.refl rfl, n + n', (ha.shift args).trans hni rfl, (hb.shift args').trans hnj rfl⟩

end Collection

theorem Alike.membership (hx : Alike x y) (hx' : Alike x' y') :
    Alike (Compiled.call "contains" [x, x']) (Compiled.call "contains" [y, y']) := by
  refine ⟨fun {args args' after after' c d} hc hd => ?_⟩
  obtain ⟨a, own, ha, hc⟩ := of_alone_bind hc
  obtain ⟨b, own', hb, hd⟩ := of_alone_bind hd
  obtain ⟨hab, n, hna, hnb⟩ := hx.outcome ha hb
  exact (Alike.item hab hna hnb hx').outcome hc hd

theorem Alike.contains (hx : Alike x y) (hx' : Alike x' y') :
    Alike (Compiled.method x "contains" [x']) (Compiled.method y "contains" [y']) := by
  refine ⟨fun {args args' after after' c d} hc hd => ?_⟩
  obtain ⟨a, own, ha, hc⟩ := of_alone_bind hc
  obtain ⟨b, own', hb, hd⟩ := of_alone_bind hd
  obtain ⟨hab, n, hna, hnb⟩ := hx.outcome ha hb
  cases ht : a.isText with
  | true =>
    have htb : b.isText = true := hab.isText_eq.symm.trans ht
    simp only [ht, htb, if_true] at hc hd
    exact (Alike.substring hab hna hnb hx').outcome hc hd
  | false =>
    have htb : b.isText = false := hab.isText_eq.symm.trans ht
    simp only [ht, htb, Bool.false_eq_true, if_false] at hc hd
    exact (Alike.item hab hna hnb hx').outcome hc hd

theorem alike_each {xs ys : List (Compiling Compiled)} (h : List.Forall₂ Alike xs ys) :
    ∀ {args args' after after' : List HostValue} {cs ds : List Compiled},
      each xs args = .ok (cs, after) → each ys args' = .ok (ds, after') →
        cs.map Compiled.text = ds.map Compiled.text ∧
          ∃ n, (function "" cs).Appends n args after ∧ (function "" ds).Appends n args' after' := by
  unfold each
  induction h with
  | nil =>
    intro args args' after after' cs ds hc hd
    cases hc
    cases hd
    exact ⟨rfl, 0, ⟨[], (List.append_nil _).symm, rfl, nofun⟩,
      ⟨[], (List.append_nil _).symm, rfl, nofun⟩⟩
  | cons hx _ ih =>
    intro args args' after after' cs ds hc hd
    rw [List.mapM_cons] at hc hd
    obtain ⟨c, _, hcx, hc⟩ := of_bind_ok hc
    obtain ⟨cs', _, hcs, hc⟩ := of_bind_ok hc
    obtain ⟨d, _, hdy, hd⟩ := of_bind_ok hd
    obtain ⟨ds', _, hds, hd⟩ := of_bind_ok hd
    cases hc
    cases hd
    obtain ⟨hcd, n, hnc, hnd⟩ := hx.outcome hcx hdy
    obtain ⟨htexts, n', hncs, hnds⟩ := ih hcs hds
    refine ⟨?_, n + n', hnc.trans hncs rfl, hnd.trans hnds rfl⟩
    rw [List.map_cons, List.map_cons, hcd.text, htexts]

theorem Alike.function (name : String) {xs ys : List (Compiling Compiled)}
    (h : List.Forall₂ Alike xs ys) :
    Alike (do return function name (← each xs)) (do return function name (← each ys)) := by
  refine ⟨fun {args args' after after' c d} hc hd => ?_⟩
  obtain ⟨cs, _, hcs, hc⟩ := of_bind_ok hc
  obtain ⟨ds, _, hds, hd⟩ := of_bind_ok hd
  cases hc
  cases hd
  obtain ⟨htexts, n, hnc, hnd⟩ := alike_each h hcs hds
  unfold Compiled.function
  rw [← htexts]
  exact ⟨.refl rfl, n, hnc.node rfl, hnd.node rfl⟩

end Operands

/-! ### Calls -/

theorem Alike.call (name : String) {xs ys : List (Compiling Compiled)}
    (h : List.Forall₂ Alike xs ys) : Alike (Compiled.call name xs) (Compiled.call name ys) := by
  by_cases hmem : (name, xs.length) ∈ Emits.calls
  · simp only [Emits.calls, List.mem_cons, List.not_mem_nil, or_false, Prod.mk.injEq] at hmem
    obtain ⟨rfl, hlen⟩ | ⟨rfl, hlen⟩ := hmem
    · obtain ⟨a, b, rfl⟩ := List.length_eq_two.mp hlen
      obtain _ | ⟨ha, _ | ⟨hb, _ | _⟩⟩ := h
      exact ha.joined hb (fun hab hab' => hab.join_eq hab' _ _ _) fun _ _ => rfl
    · obtain ⟨a, b, rfl⟩ := List.length_eq_two.mp hlen
      obtain _ | ⟨ha, _ | ⟨hb, _ | _⟩⟩ := h
      exact ha.membership hb
  · rw [Emits.call_other hmem, Emits.call_other (h.length_eq ▸ hmem)]
    exact Alike.function name h

theorem Alike.method (hx : Alike x y) (name : String) {xs ys : List (Compiling Compiled)}
    (h : List.Forall₂ Alike xs ys) :
    Alike (Compiled.method x name xs) (Compiled.method y name ys) := by
  by_cases hmem : (name, xs.length) ∈ Emits.methods
  · simp only [Emits.methods, List.mem_cons, List.not_mem_nil, or_false, Prod.mk.injEq,
      List.length_eq_zero_iff, List.length_eq_one_iff] at hmem
    obtain ⟨rfl, a, rfl⟩ | ⟨rfl, a, rfl⟩ | ⟨rfl, a, rfl⟩ | ⟨rfl, a, rfl⟩ | ⟨rfl, rfl⟩ |
      ⟨rfl, rfl⟩ := hmem
    · obtain _ | ⟨ha, _ | _⟩ := h
      exact hx.contains ha
    · obtain _ | ⟨ha, _ | _⟩ := h
      exact hx.joined ha (fun hab hab' => hab.join_eq hab' _ _ _) fun _ _ => rfl
    · obtain _ | ⟨ha, _ | _⟩ := h
      exact hx.joined ha (fun hab hab' => hab.join_eq hab' _ _ _) fun _ _ => rfl
    · obtain _ | ⟨ha, _ | _⟩ := h
      exact hx.joined ha (fun hab hab' => hab.join_eq hab' _ _ _) fun _ _ => rfl
    · cases h
      exact hx.wrapped _ _
    · cases h
      exact hx.wrapped _ _
  · rw [Emits.method_other hmem, Emits.method_other (h.length_eq ▸ hmem)]
    exact Alike.function name h

/-! ### Values that are replaced -/

section Replaced

variable {a b c d : Compiled} {args args' after after' : List HostValue} {n : Nat}

/-- A conversion that succeeds leaves the value or replaces a scalar with the coerced one. -/
theorem of_convert {target : DataType} (h : a.convert target args = .ok (c, after)) :
    (c = { a with type := some target } ∧ after = args ∧
        ∀ v, a.value = some (.scalar v) → v.isNull = true) ∨
      ∃ v v', a.value = some (.scalar v) ∧ v.isNull = false ∧ v.coerce target = .ok v' ∧
        c = { text := a.text, value := some (.scalar v'), type := some target } ∧
        after = replaceLast (.scalar v') args := by
  obtain ⟨text, value, type⟩ := a
  cases value with
  | none =>
    cases h
    exact .inl ⟨rfl, rfl, fun v hv => by cases hv⟩
  | some value =>
    cases value with
    | scalar v =>
      cases hv : v.isNull with
      | true =>
        simp only [Compiled.convert, hv, if_true] at h
        cases h
        exact .inl ⟨rfl, rfl, fun w hw => by cases hw; exact hv⟩
      | false =>
        simp only [Compiled.convert, hv, Bool.false_eq_true, if_false] at h
        cases hcoerce : v.coerce target with
        | error fault =>
          rw [hcoerce] at h
          cases h
        | ok v' =>
          rw [hcoerce] at h
          cases h
          exact .inr ⟨v, v', rfl, hv, hcoerce, rfl, rfl⟩
    | _ =>
      cases h
      exact .inl ⟨rfl, rfl, fun v hv => by cases hv⟩

theorem appends_convert {mid : List HostValue} {target : DataType} (ha : a.Appends n args mid)
    (h : a.convert target mid = .ok (c, after)) : c.Appends n args after := by
  obtain ⟨own, rfl, rfl, hown⟩ := ha
  obtain ⟨rfl, rfl, -⟩ | ⟨v, v', hv, -, -, rfl, rfl⟩ := of_convert h
  · exact ⟨own, rfl, rfl, hown⟩
  · rw [hown _ hv]
    refine ⟨[.scalar v'], Emits.replaceLast_append args (.scalar v) (.scalar v'), rfl, ?_⟩
    intro w hw
    rw [← Option.some.inj hw]
    rfl

theorem scalar_left {v : Value} {o : Option HostValue}
    (h : Option.Rel HostValue.Alike (some (.scalar v)) o) :
    ∃ w, o = some (.scalar w) ∧ v.Alike w := by
  obtain hvw | _ := h
  cases hvw with
  | scalar hvw => exact ⟨_, rfl, hvw⟩

theorem scalar_right {w : Value} {o : Option HostValue}
    (h : Option.Rel HostValue.Alike o (some (.scalar w))) :
    ∃ v, o = some (.scalar v) ∧ v.Alike w := by
  obtain hvw | _ := h
  cases hvw with
  | scalar hvw => exact ⟨_, rfl, hvw⟩

theorem alike_convert {target : DataType} (hab : a.Alike b)
    (hc : a.convert target args = .ok (c, after)) (hd : b.convert target args' = .ok (d, after')) :
    c.Alike d := by
  have hvalue := hab.value
  obtain ⟨rfl, -, ha⟩ | ⟨v, v', ha, hv, hv', rfl, -⟩ := of_convert hc
  · obtain ⟨rfl, -, -⟩ | ⟨w, w', hb, hw, -, rfl, -⟩ := of_convert hd
    · exact ⟨hab.text, rfl, hvalue⟩
    · rw [hb] at hvalue
      obtain ⟨v, hav, hvw⟩ := scalar_right hvalue
      rw [← hvw.isNull_eq, ha v hav] at hw
      cases hw
  · rw [ha] at hvalue
    obtain ⟨w, hbw, hvw⟩ := scalar_left hvalue
    obtain ⟨rfl, -, hb⟩ | ⟨w, w', hb, -, hw', rfl, -⟩ := of_convert hd
    · rw [hvw.isNull_eq, hb w hbw] at hv
      cases hv
    · cases hbw.symm.trans hb
      exact ⟨hab.text, rfl, .some (.scalar (hvw.coerce hv' hw'))⟩

theorem of_hostMember {name kind : String} (h : a.hostMember name kind args = .ok (c, after)) :
    ∃ typeName members v, a.value = some (.object typeName members) ∧
      (HostValue.object typeName members).member? name = some v ∧
        Compiled.placeholder v args.dropLast = .ok (c, after) := by
  obtain ⟨text, _ | _ | _ | ⟨typeName, members⟩, type⟩ := a
  · cases h
  · cases h
  · cases h
  · simp only [Compiled.hostMember, modify_bind] at h
    cases hv : (HostValue.object typeName members).member? name with
    | none =>
      rw [hv] at h
      cases h
    | some v =>
      rw [hv] at h
      exact ⟨typeName, members, v, rfl, hv, h⟩

theorem dropLast_appends {mid : List HostValue} {v : HostValue} (ha : a.Appends n args mid)
    (hv : a.value = some v) (he : v.elements = [v]) : mid.dropLast = args := by
  obtain ⟨own, rfl, -, hown⟩ := ha
  rw [hown v hv, he, List.dropLast_concat]

end Replaced

/-- The coerced value takes the place of the last argument. -/
theorem Alike.convert (hx : Alike x y) (target : DataType) :
    Alike (x >>= fun c => c.convert target) (y >>= fun c => c.convert target) := by
  refine ⟨fun {args args' after after' c d} hc hd => ?_⟩
  obtain ⟨a, mid, ha, hc⟩ := of_bind_ok hc
  obtain ⟨b, mid', hb, hd⟩ := of_bind_ok hd
  obtain ⟨hab, n, hna, hnb⟩ := hx.outcome ha hb
  exact ⟨alike_convert hab hc hd, n, appends_convert hna hc, appends_convert hnb hd⟩

/-- The member takes the place of its object, which is the last argument. -/
theorem Alike.hostMember (hx : Alike x y) (name kind kind' : String) :
    Alike (x >>= fun c => c.hostMember name kind) (y >>= fun c => c.hostMember name kind') := by
  refine ⟨fun {args args' after after' c d} hc hd => ?_⟩
  obtain ⟨a, mid, ha, hc⟩ := of_bind_ok hc
  obtain ⟨b, mid', hb, hd⟩ := of_bind_ok hd
  obtain ⟨hab, n, hna, hnb⟩ := hx.outcome ha hb
  obtain ⟨t, ms, v, hat, hv, hc⟩ := of_hostMember hc
  obtain ⟨t', ms', v', hbt, hv', hd⟩ := of_hostMember hd
  rw [dropLast_appends hna hat rfl] at hc
  rw [dropLast_appends hnb hbt rfl] at hd
  have hvalue := hab.value
  rw [hat, hbt] at hvalue
  obtain hobject | _ := hvalue
  obtain _ | _ | hmembers := hobject
  have hmember := hmembers name
  rw [hv, hv'] at hmember
  obtain hvv | _ := hmember
  exact (Alike.placeholder hvv).outcome hc hd

end Compiling

/-! ## Expressions of one shape compile alike -/

namespace Mapping

mutual

theorem alike_compile (m : Mapping) : (e : Expression) → {e' : Expression} → e.Alike e' →
    Compiling.Alike (m.compile e) (m.compile e')
  | .constant _, _, .constant h => .placeholder h
  | .member object name, .member object' _, .member h _ => by
    by_cases ho : object = .parameter
    · subst ho
      cases h
      exact .property m name
    · have ho' : object' ≠ .parameter := by
        rintro rfl
        cases h
        exact ho rfl
      rw [compile_member ho, compile_member ho']
      exact (m.alike_compile object h).hostMember name _ _
  | .binary op left right, _, .binary _ hl hr => by
    rw [compile, compile]
    cases op.spelling with
    | none => exact .throw
    | some spelling =>
      exact (m.alike_compile left hl).joined (m.alike_compile right hr)
        (fun hab hab' => hab.operation_eq hab' op spelling) fun _ _ => rfl
  | .call name arguments, _, .call _ h => .call name (m.alike_compileEach arguments h)
  | .method receiver name arguments, _, .method hr _ h =>
    (m.alike_compile receiver hr).method name (m.alike_compileEach arguments h)
  | .convert operand target, _, .convert h _ => (m.alike_compile operand h).convert target
  | .parameter, _, .parameter => .throw
  | .unary _ _, _, .unary _ _ => .throw
  | .conditional _ _ _, _, .conditional _ _ _ => .throw

theorem alike_compileEach (m : Mapping) : (es : List Expression) → {es' : List Expression} →
    Expression.AlikeEach es es' →
    List.Forall₂ Compiling.Alike (m.compileEach es) (m.compileEach es')
  | [], _, .nil => .nil
  | e :: r, _, .cons h hr => .cons (m.alike_compile e h) (m.alike_compileEach r hr)

end

/-- **No content of a constant enters the text.** Where two expressions of one shape both compile,
they compile to the same text with the same type, whatever arguments stand before, and append
equally many arguments. -/
theorem same_text_of_alike (m : Mapping) {e e' : Expression} (h : e.Alike e')
    {args args' after after' : List HostValue} {c c' : Compiled}
    (hc : m.compile e args = .ok (c, after)) (hc' : m.compile e' args' = .ok (c', after')) :
    c.text = c'.text ∧ c.type = c'.type ∧ ∃ own own', after = args ++ own ∧ after' = args' ++ own' ∧
      own.length = own'.length := by
  obtain ⟨hcc, n, ⟨own, hown, hn, -⟩, own', hown', hn', -⟩ := (m.alike_compile e h).outcome hc hc'
  exact ⟨hcc.text, hcc.type, own, own', hown, hown', hn.trans hn'.symm⟩

/-- A converted member of an object that is compared with a text, once with harmless contents and
once with the rest of a statement. -/
theorem same_text_of_injection :
    let e (n : Int64) (s : String) : Expression :=
      .binary .eq (.convert (.member (.constant (.object "Filter" [("limit", .scalar (.int n))])) "limit")
        .text) (.constant (.scalar (.text s)))
    (e 7 "seven").Alike (e (-1) "x' or 1=1; --") ∧
      ∃ c c' after after', (default : Mapping).compile (e 7 "seven") [] = .ok (c, after) ∧
        (default : Mapping).compile (e (-1) "x' or 1=1; --") [] = .ok (c', after') ∧
        c.text = c'.text ∧ c.type = c'.type ∧ ∃ own own', after = [] ++ own ∧ after' = [] ++ own' ∧
          own.length = own'.length := by
  intro e
  have hmembers : ∀ key, Option.Rel HostValue.Alike
      ((HostValue.object "Filter" [("limit", .scalar (.int 7))]).member? key)
      ((HostValue.object "Filter" [("limit", .scalar (.int (-1)))]).member? key) := by
    intro key
    by_cases hkey : ("limit" == key) = true
    · simp only [HostValue.member?, List.find?_cons, hkey]
      exact .some (.scalar (.int 7 (-1)))
    · simp only [HostValue.member?, List.find?_cons, hkey]
      exact .none
  have hshape : (e 7 "seven").Alike (e (-1) "x' or 1=1; --") :=
    .binary .eq (.convert (.member (.constant (.object hmembers)) "limit") .text)
      (.constant (.scalar (.text _ _)))
  exact ⟨hshape, _, _, _, _, rfl, rfl, same_text_of_alike default hshape rfl rfl⟩

end Mapping

end RecordMapper
