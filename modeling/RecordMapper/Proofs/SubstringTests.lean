import RecordMapper.Proofs.Framing
import RecordMapper.Proofs.Queries

/-!
# When `contains` is a substring test

The test is one for a part of a text where the compiled receiver is known to be text, and one for
membership otherwise.

1. `Mapping.TextValued`: the expressions that give a text.
2. `Mapping.isText_compile`: all of these are known to be text once compiled, but for those that
   change the case of a text: what they compile to has no type.
3. `Mapping.contains_of_textValued`: which test `contains` is on each of them.
-/

namespace RecordMapper

/-- Whether the outermost node changes the case of a text. -/
def Expression.recased : Expression → Bool
  | .method _ "to_lower" [] | .method _ "to_upper" [] => true
  | _ => false

namespace Mapping

open Compiled Compiling

/-- Expressions that give a text: columns of texts, constant texts, texts among the members of host
objects, what is converted to text, and texts with their case changed. -/
inductive TextValued (m : Mapping) : Expression → Prop
  | property {name : String} {c : Column} (hc : m.findProperty name = some c)
      (ht : c.dataType.isText = true) : TextValued m (.property name)
  | constant {v : Value} (hv : v.isText = true) : TextValued m (.constant (.scalar v))
  | hostMember {object : Expression} {name typeName : String} {c : Compiled} {own : List HostValue}
      {members : List (String × HostValue)} {v : Value} (hc : m.compile object [] = .ok (c, own))
      (ho : c.value = some (.object typeName members))
      (hm : (HostValue.object typeName members).member? name = some (.scalar v))
      (hv : v.isText = true) : TextValued m (.member object name)
  | convert {operand : Expression} {c : Compiled} {own : List HostValue}
      (hc : m.compile (.convert operand .text) [] = .ok (c, own)) :
      TextValued m (.convert operand .text)
  | toLower {e : Expression} (he : TextValued m e) : TextValued m e.toLower
  | toUpper {e : Expression} (he : TextValued m e) : TextValued m e.toUpper

variable {m : Mapping} {e receiver item : Expression} {r i : Compiled} {own own' : List HostValue}

theorem compile_toLower (h : m.compile e [] = .ok (r, own)) :
    m.compile e.toLower [] = .ok (wrap "(lower(" r "))", own) := bind_ok h

theorem compile_toUpper (h : m.compile e [] = .ok (r, own)) :
    m.compile e.toUpper [] = .ok (wrap "(upper(" r "))", own) := bind_ok h

/-- An expression that gives a text compiles. It is known to be text then, unless its outermost node
changes the case. -/
theorem isText_compile (h : m.TextValued e) :
    ∃ r own, m.compile e [] = .ok (r, own) ∧ r.isText = !e.recased := by
  induction h with
  | @property name c hc ht =>
    have hp : m.property name = .ok ⟨quoteIdentifier c.name, none, some c.dataType⟩ := by
      unfold Mapping.property memberColumn
      rw [hc]
      rfl
    refine ⟨⟨quoteIdentifier c.name, none, some c.dataType⟩, [], ?_, (Bool.or_false _).trans ht⟩
    show (liftM (m.property name) : Compiling Compiled) [] = _
    rw [lift_apply, hp]
    rfl
  | constant hv => exact ⟨_, _, rfl, hv⟩
  | @hostMember object name typeName c own members v hc ho hm hv =>
    have hobject : object ≠ .parameter := by
      rintro rfl
      cases hc
    refine ⟨⟨"?", some (.scalar v), none⟩, own.dropLast ++ [.scalar v], ?_, ?_⟩
    · rw [compile_member hobject, bind_ok hc]
      unfold Compiled.hostMember
      simp only [ho, hm]
      rfl
    · exact hv
  | @convert operand c own hc =>
    obtain ⟨a, mid, -, hconvert⟩ := of_bind_ok hc
    refine ⟨c, own, hc, ?_⟩
    rcases of_convert hconvert with ⟨rfl, -⟩ | ⟨-, -, -, -, -, rfl, -⟩
    · rfl
    · rfl
  | toLower _ ih =>
    obtain ⟨r, own, hr, -⟩ := ih
    exact ⟨_, own, compile_toLower hr, rfl⟩
  | toUpper _ ih =>
    obtain ⟨r, own, hr, -⟩ := ih
    exact ⟨_, own, compile_toUpper hr, rfl⟩

theorem compile_contains_text (hr : m.compile receiver [] = .ok (r, own))
    (hi : m.compile item [] = .ok (i, own')) (ht : r.isText = true) (args : List HostValue) :
    m.compile (receiver.contains item) args =
      .ok (join "(" r " like ('%'||" i "||'%'))", args ++ (own ++ own')) := by
  show (alone (m.compile receiver) >>= _) args = _
  rw [bind_ok (alone_apply hr args)]
  simp only [ht, if_true]
  rw [modify_bind, bind_ok (compile_behind hi _), pure_apply, List.append_assoc]

theorem compile_contains_other (hr : m.compile receiver [] = .ok (r, own))
    (hi : m.compile item [] = .ok (i, own')) (ht : r.isText = false) (args : List HostValue) :
    m.compile (receiver.contains item) args =
      .ok (join "(" i " in " r ")", args ++ (own' ++ own)) := by
  show (alone (m.compile receiver) >>= _) args = _
  rw [bind_ok (alone_apply hr args)]
  simp only [ht, Bool.false_eq_true, if_false]
  rw [bind_ok (compile_behind hi _), modify_bind, pure_apply, List.append_assoc]

theorem membership_ne_substring (r i : Compiled) :
    (join "(" i " in " r ")").text ≠ (join "(" r " like ('%'||" i "||'%'))").text := by
  intro h
  have hlength := congrArg String.length h
  simp only [join, String.length_append] at hlength
  have h₁ : "(".length = 1 := rfl
  have h₂ : " in ".length = 4 := rfl
  have h₃ : ")".length = 1 := rfl
  have h₄ : " like ('%'||".length = 12 := rfl
  have h₅ : "||'%'))".length = 7 := rfl
  omega

/-- **Which test `contains` is on a text.** A receiver that gives a text compiles, and with
every item that compiles the test does, whatever arguments stand before. It is the substring
test if and only if the receiver is not itself a change of case; on a change of case it is the
membership test. -/
theorem contains_of_textValued (h : m.TextValued receiver)
    (hi : m.compile item [] = .ok (i, own')) :
    ∃ r own, m.compile receiver [] = .ok (r, own) ∧ ∀ args, ∃ c after,
      m.compile (receiver.contains item) args = .ok (c, args ++ after) ∧
      (c.text = "(" ++ r.text ++ " like ('%'||" ++ i.text ++ "||'%'))" ↔ receiver.recased = false) ∧
      (receiver.recased = false → after = own ++ own') ∧
      (receiver.recased = true →
        c.text = "(" ++ i.text ++ " in " ++ r.text ++ ")" ∧ after = own' ++ own) := by
  obtain ⟨r, own, hr, ht⟩ := isText_compile h
  refine ⟨r, own, hr, fun args => ?_⟩
  cases hcase : receiver.recased with
  | false =>
    rw [hcase] at ht
    exact ⟨_, _, compile_contains_text hr hi ht args, iff_of_true rfl rfl, fun _ => rfl, nofun⟩
  | true =>
    rw [hcase] at ht
    exact ⟨_, _, compile_contains_other hr hi ht args,
      iff_of_false (membership_ne_substring r i) nofun, nofun, fun _ => ⟨rfl, rfl⟩⟩

/-- A text of a host object, converted back from lower case, and a column in upper case. -/
theorem contains_of_textValued_converted :
    let object : Expression := .constant (.object "Filter" [("word", .scalar (.text "Wide"))])
    let receiver : Expression := .convert (Expression.member object "word").toLower .text
    Session.notes.TextValued receiver ∧ ∃ c after,
      Session.notes.compile (receiver.contains (Expression.property "Body").toUpper)
        [.scalar .null] =
        .ok (c, after) ∧
      c.text = "(" ++ "(lower(?))" ++ " like ('%'||" ++ "(upper(\"Body\"))" ++ "||'%'))" := by
  intro object receiver
  have hreceiver : Session.notes.TextValued receiver := .convert rfl
  have hitem : Session.notes.compile (Expression.property "Body").toUpper [] =
      .ok (⟨"(upper(\"Body\"))", none, none⟩, []) := rfl
  obtain ⟨r, own, hr, hall⟩ := contains_of_textValued hreceiver hitem
  obtain ⟨c, after, hc, htext, -, -⟩ := hall [.scalar .null]
  cases hr
  exact ⟨hreceiver, c, _, hc, htext.mpr rfl⟩

/-- On a column in lower case, which is a text, it is a test for membership. -/
theorem not_always_contains_substring : ¬ ∀ {m : Mapping} {receiver item : Expression}
    {r i : Compiled} {own own' : List HostValue}, m.TextValued receiver →
      m.compile receiver [] = .ok (r, own) → m.compile item [] = .ok (i, own') →
      ∃ after, m.compile (receiver.contains item) [] =
        .ok ({ text := "(" ++ r.text ++ " like ('%'||" ++ i.text ++ "||'%'))" }, after) := by
  intro hall
  have htext : Session.notes.TextValued (Expression.property "Body").toLower :=
    .toLower (.property (c := Session.notes.columns[1]) rfl rfl)
  have hreceiver : Session.notes.compile (Expression.property "Body").toLower [] =
      .ok (⟨"(lower(\"Body\"))", none, none⟩, []) := rfl
  have hitem : Session.notes.compile (.constant (.scalar (.text "b"))) [] =
      .ok (⟨"?", some (.scalar (.text "b")), none⟩, [.scalar (.text "b")]) := rfl
  obtain ⟨after, hc⟩ := hall htext hreceiver hitem
  have hother := compile_contains_other hreceiver hitem rfl []
  have hsame := congrArg Prod.fst (Except.ok.inj (hother.symm.trans hc))
  exact membership_ne_substring _ _ (congrArg Compiled.text hsame)

end Mapping

end RecordMapper
