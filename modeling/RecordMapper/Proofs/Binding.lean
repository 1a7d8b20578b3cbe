import RecordMapper.Proofs.Meaning
import RecordMapper.Proofs.SessionSteps

/-!
# Binding

The arguments of a command become the cells of its parameters, in the order in which the parameters
stand in the text.

1. `Parameters.bound_ofLexemes`: the parameter at the k-th mark of a statement is the k-th.
2. `Session.bindEach_stored`: values that can be stored are bound one after another.
-/

namespace RecordMapper

namespace Sql

open Lexeme

/-! ## Numbers of parameters -/

namespace Parameters

theorem add_calm {l : Lexeme} (h : Calm l) (p : Parameters) : p.add l =
    ⟨p.indices ++ (marks [l]).zipIdx (p.names.length + 1),
      p.names ++ List.replicate (marks [l]).length none⟩ := by
  by_cases hl : l.token = .parameter "?"
  · have hm : marks [l] = [l.offset] := by
      unfold marks
      rw [List.filter_cons_of_pos (by rw [hl]; rfl)]
      rfl
    unfold add
    rw [hl, hm]
    rfl
  · have hm : marks [l] = [] := by
      unfold marks
      rw [List.filter_cons_of_neg (by simpa using hl)]
      rfl
    rw [add_other fun text ht => hl (by rw [ht, h.unnamed text ht]), hm, List.zipIdx_nil,
      List.append_nil, List.length_nil, List.replicate_zero, List.append_nil]

theorem foldl_add_calm {ls : List Lexeme} (h : ∀ l ∈ ls, Calm l) (p : Parameters) :
    ls.foldl add p = ⟨p.indices ++ (marks ls).zipIdx (p.names.length + 1),
      p.names ++ List.replicate (marks ls).length none⟩ := by
  induction ls generalizing p with
  | nil =>
    rw [List.foldl_nil, marks, List.filter_nil, List.map_nil, List.zipIdx_nil, List.append_nil,
      List.length_nil, List.replicate_zero, List.append_nil]
  | cons l r ih =>
    rw [List.foldl_cons, ih fun l hl => h l (List.mem_cons_of_mem _ hl),
      add_calm (h l List.mem_cons_self), show l :: r = [l] ++ r from rfl, marks_append]
    simp only [List.length_append, List.length_replicate, List.zipIdx_append, List.append_assoc,
      List.replicate_append_replicate]
    rw [show p.names.length + 1 + (marks [l]).length = p.names.length + (marks [l]).length + 1 by omega]

theorem ofLexemes_calm {ls : List Lexeme} (h : ∀ l ∈ ls, Calm l) : ofLexemes ls =
    ⟨(marks ls).zipIdx 1, List.replicate (marks ls).length none⟩ := by
  unfold ofLexemes
  rw [foldl_add_calm h, List.nil_append, List.nil_append]
  rfl

/-- Parameters are a matter of the marks. -/
theorem ofLexemes_congr {as bs : List Lexeme} (ha : ∀ l ∈ as, Calm l) (hb : ∀ l ∈ bs, Calm l)
    (h : marks as = marks bs) : ofLexemes as = ofLexemes bs := by
  rw [ofLexemes_calm ha, ofLexemes_calm hb, h]

theorem count_ofLexemes {ls : List Lexeme} (h : ∀ l ∈ ls, Calm l) :
    (ofLexemes ls).count = (marks ls).length := by
  unfold count
  rw [ofLexemes_calm h, List.length_replicate]

theorem find?_zipIdx {places : List Nat} (hn : places.Nodup) (start : Nat) {i : Nat}
    (hi : i < places.length) : ((places.zipIdx start).find? fun (place, _) => place == places[i]) =
      some (places[i], start + i) := by
  induction places generalizing start i with
  | nil => exact absurd hi (Nat.not_lt_zero i)
  | cons p r ih =>
    rw [List.nodup_cons] at hn
    cases i with
    | zero => exact List.find?_cons_of_pos (beq_self_eq_true p)
    | succ i =>
      have hi' : i < r.length := Nat.lt_of_succ_lt_succ hi
      have hne : (p == r[i]) = false := beq_false_of_ne fun h => hn.1 (h ▸ List.getElem_mem hi')
      rw [List.zipIdx_cons, List.getElem_cons_succ, List.find?_cons]
      simp only [hne]
      rw [ih hn.2 _ hi', show start + 1 + i = start + (i + 1) by omega]

theorem nodup_marks {ls : List Lexeme} (h : ls.Pairwise fun a b => a.offset < b.offset) :
    (marks ls).Nodup := by
  unfold marks
  rw [List.nodup_iff_pairwise_ne, List.pairwise_map]
  exact (h.filter _).imp fun hlt => Nat.ne_of_lt hlt

/-- The parameter at each mark has the value of the same number. -/
theorem bound_ofLexemes {ls : List Lexeme} (hc : ∀ l ∈ ls, Calm l)
    (ha : ls.Pairwise fun a b => a.offset < b.offset) {cells : List Cell}
    (hlen : (marks ls).length = cells.length) : Bound (ofLexemes ls) cells (marks ls) cells := by
  refine List.forall₂_iff_get.mpr ⟨hlen, fun i hi hi' => ?_⟩
  have hat : (ofLexemes ls).indexAt (marks ls)[i] = 1 + i := by
    unfold indexAt
    rw [ofLexemes_calm hc, find?_zipIdx (nodup_marks ha) 1 hi]
    rfl
  show cells[(ofLexemes ls).indexAt (marks ls)[i] - 1]?.getD .null = cells[i]
  rw [hat, Nat.add_sub_cancel_left, List.getElem?_eq_getElem hi']
  rfl

end Parameters

end Sql

/-! ## Values of parameters -/

namespace Prepared

theorem bind_next {p : Prepared} (hs : p.statement.isSome) (c : Cell)
    (h : p.bindings.length < p.parameters.count) :
    p.bind (p.bindings.length + 1) c = .ok { p with bindings := p.bindings ++ [c.bound] } := by
  have hnone : p.statement.isNone = false := by
    cases hp : p.statement with
    | none => rw [hp] at hs; cases hs
    | some s => rfl
  have hrange : ¬(p.bindings.length + 1 = 0 ∨ p.parameters.count < p.bindings.length + 1) := by
    omega
  unfold bind
  simp only [hnone, Bool.false_eq_true, if_false, if_neg hrange, Nat.add_sub_cancel,
    Nat.add_sub_cancel_left, List.replicate_one]
  rw [List.set_append_right _ _ (Nat.le_refl _), Nat.sub_self]
  rfl

theorem of_bind_next {p q : Prepared} {c : Cell} (h : p.bind (p.bindings.length + 1) c = .ok q) :
    q = { p with bindings := p.bindings ++ [c.bound] } := by
  have hbind := h
  unfold bind at h
  split at h
  · cases h
  · rename_i hs
    split at h
    · cases h
    · rename_i hrange
      have hsome : p.statement.isSome := Option.isSome_iff_ne_none.mpr (by simpa using hs)
      exact Except.ok.inj (hbind.symm.trans (p.bind_next hsome c (by omega)))

end Prepared

namespace Session

/-- Values that can be stored are bound from the next parameter on. -/
theorem bindEach_stored {ticks : Bool} {values : List HostValue} {own : List Cell}
    (h : Stored ticks values own) {p : Prepared} (hs : p.statement.isSome)
    (hcount : p.bindings.length + own.length ≤ p.parameters.count) :
    (bindEach ticks p (p.bindings.length + 1) (values.map fun v => { value := v })).1 =
      .ok { p with bindings := p.bindings ++ own } := by
  induction h generalizing p with
  | nil =>
    rw [List.append_nil]
    rfl
  | @cons v c values own hv _ ih =>
    rw [List.length_cons] at hcount
    obtain ⟨cell, hcell, rfl⟩ : ∃ cell, v.toCell ticks = .ok cell ∧ cell.bound = c := by
      cases hcell : v.toCell ticks with
      | error e => rw [hcell] at hv; cases hv
      | ok cell => rw [hcell] at hv; cases hv; exact ⟨cell, rfl, rfl⟩
    have hbind := p.bind_next hs cell (by omega)
    have hnext := ih (p := { p with bindings := p.bindings ++ [cell.bound] }) hs (by
      simp only [List.length_append, List.length_singleton]
      omega)
    simp only [List.length_append, List.length_singleton, List.append_assoc, List.singleton_append]
      at hnext
    rw [List.map_cons, bindEach]
    simp only [bindingIndex, hcell, Except.mapError, hbind]
    exact hnext

/-- Values are bound only where they can be stored, one after another. -/
theorem of_bindEach {ticks : Bool} {values : List HostValue} {p q : Prepared}
    (h : (bindEach ticks p (p.bindings.length + 1) (values.map fun v => { value := v })).1 = .ok q) :
    ∃ own, Stored ticks values own ∧ q = { p with bindings := p.bindings ++ own } := by
  induction values generalizing p with
  | nil =>
    cases h
    exact ⟨[], .nil, by rw [List.append_nil]⟩
  | cons v rest ih =>
    rw [List.map_cons, bindEach] at h
    simp only [bindingIndex] at h
    cases hcell : v.toCell ticks with
    | error e =>
      rw [hcell] at h
      cases h
    | ok cell =>
      rw [hcell] at h
      simp only [Except.mapError] at h
      cases hbind : p.bind (p.bindings.length + 1) cell with
      | error fault =>
        rw [hbind] at h
        cases h
      | ok q' =>
        rw [hbind] at h
        obtain rfl := Prepared.of_bind_next hbind
        obtain ⟨own, hstored, rfl⟩ := ih (p := { p with bindings := p.bindings ++ [cell.bound] })
          (by simpa using h)
        refine ⟨cell.bound :: own, .cons (by rw [hcell]; rfl) hstored, ?_⟩
        simp only [List.append_assoc, List.singleton_append]

/-- A prepared command whose values can be stored is ready with these values bound. -/
theorem ready_stored {s u : Session} {text : String} {values : List HostValue} {own : List Cell}
    {p : Prepared} (h : prepare text s = (.ok p, u)) (hs : p.statement.isSome)
    (hb : p.bindings = []) (hstored : Stored u.connection.settings.ticks values own)
    (hcount : own.length ≤ p.parameters.count) :
    ready (.positional text values) s = (.ok { p with bindings := own }, u) := by
  have hbound := bindEach_stored hstored hs (by rw [hb, List.length_nil]; omega)
  rw [hb, List.length_nil, List.nil_append] at hbound
  rw [ready_apply (c := .positional text values) h]
  exact congrArg (·, u) hbound

end Session

end RecordMapper
