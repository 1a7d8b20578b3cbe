import RecordMapper.Expression.Compile

/-!
# Marks in a text

A question mark outside quoted identifiers is the place of a value.

1. `Marks.count` counts the marks of a text, and `Marks.fill` writes values over them from left to
   right.
2. `Marks.Fits`: a piece of text whose marks are the places of some values, wherever it stands
   outside quoted identifiers. Pieces that fit can be put together.
-/

namespace RecordMapper

namespace Marks

/-- How many marks a text has, given whether it starts inside a quoted identifier. -/
def count : Bool → List Char → Nat
  | _, [] => 0
  | quoted, c :: cs =>
    if c = '"' then count (!quoted) cs
    else if c = '?' ∧ quoted = false then count quoted cs + 1
    else count quoted cs

/-- The text with values written over its marks; a mark without a value stays. -/
def fill (write : HostValue → String) : Bool → List Char → List HostValue → List Char
  | _, [], _ => []
  | quoted, c :: cs, values =>
    if c = '"' then c :: fill write (!quoted) cs values
    else if c = '?' ∧ quoted = false then
      match values with
      | v :: values => (write v).toList ++ fill write quoted cs values
      | [] => c :: fill write quoted cs []
    else c :: fill write quoted cs values

section Steps

variable (write : HostValue → String) {quoted : Bool} {c : Char} (cs : List Char)
  (values : List HostValue)

theorem count_quote : count quoted ('"' :: cs) = count (!quoted) cs := rfl

theorem fill_quote :
    fill write quoted ('"' :: cs) values = '"' :: fill write (!quoted) cs values := by
  simp only [fill, if_true]

theorem count_other (hq : c ≠ '"') (hm : ¬(c = '?' ∧ quoted = false)) :
    count quoted (c :: cs) = count quoted cs := by
  rw [count, if_neg hq, if_neg hm]

theorem fill_other (hq : c ≠ '"') (hm : ¬(c = '?' ∧ quoted = false)) :
    fill write quoted (c :: cs) values = c :: fill write quoted cs values := by
  simp only [fill, if_neg hq, if_neg hm]

end Steps

/-- A character that is no mark and no quote. -/
def isPlain (c : Char) : Bool := c != '?' && c != '"'

/-- A piece of text with a mark for each of some values, which becomes `out` when they are written
over it. -/
def Fits (write : HostValue → String) (text : String) (values : List HostValue) (out : String) :
    Prop :=
  ∀ rest more, count false (text.toList ++ rest) = values.length + count false rest ∧
    fill write false (text.toList ++ rest) (values ++ more) =
      out.toList ++ fill write false rest more

namespace Fits

variable {write : HostValue → String} {a b out out' : String} {xs ys : List HostValue}

theorem append (ha : Fits write a xs out) (hb : Fits write b ys out') :
    Fits write (a ++ b) (xs ++ ys) (out ++ out') := by
  intro rest more
  rw [String.toList_append, String.toList_append, List.append_assoc, List.append_assoc,
    List.append_assoc]
  obtain ⟨hca, hfa⟩ := ha (b.toList ++ rest) (ys ++ more)
  obtain ⟨hcb, hfb⟩ := hb rest more
  refine ⟨?_, by rw [hfa, hfb]⟩
  rw [hca, hcb, List.length_append, Nat.add_assoc]

theorem plain (h : a.toList.all isPlain = true) : Fits write a [] a := by
  intro rest more
  rw [List.length_nil, Nat.zero_add, List.nil_append]
  generalize a.toList = cs at h
  induction cs with
  | nil => exact ⟨rfl, rfl⟩
  | cons c cs ih =>
    rw [List.all_cons, Bool.and_eq_true] at h
    obtain ⟨hcount, hfill⟩ := ih h.2
    unfold isPlain at h
    rw [Bool.and_eq_true, bne_iff_ne, bne_iff_ne] at h
    obtain ⟨⟨hm, hq⟩, -⟩ := h
    rw [List.cons_append, List.cons_append, count_other _ hq fun h => hm h.1,
      fill_other _ _ _ hq fun h => hm h.1]
    exact ⟨hcount, congrArg (c :: ·) hfill⟩

/-- A mark is the place of one value. -/
theorem mark (v : HostValue) : Fits write "?" [v] (write v) := by
  intro rest more
  refine ⟨?_, rfl⟩
  show count false ('?' :: rest) = 1 + count false rest
  rw [count, if_neg (by decide), if_pos ⟨rfl, rfl⟩, Nat.add_comm]

/-- The characters between the quotes of an identifier are passed over. -/
theorem inside (write : HostValue → String) (name rest : List Char) (values : List HostValue) :
    count true (Quoted.encode '"' name ++ '"' :: rest) = count false rest ∧
      fill write true (Quoted.encode '"' name ++ '"' :: rest) values =
        Quoted.encode '"' name ++ '"' :: fill write false rest values := by
  induction name with
  | nil => exact ⟨rfl, fill_quote write rest values⟩
  | cons c r ih =>
    obtain ⟨hcount, hfill⟩ := ih
    by_cases hq : c = '"'
    · subst hq
      rw [Quoted.encode, if_pos rfl, List.cons_append, List.cons_append, List.cons_append,
        List.cons_append, count_quote, count_quote, fill_quote, fill_quote]
      exact ⟨hcount, congrArg (fun l => '"' :: '"' :: l) hfill⟩
    · have hm : ¬(c = '?' ∧ true = false) := fun h => absurd h.2 (by decide)
      rw [Quoted.encode, if_neg hq, List.cons_append, List.cons_append, count_other _ hq hm,
        fill_other _ _ _ hq hm]
      exact ⟨hcount, congrArg (c :: ·) hfill⟩

/-- A quoted identifier has no marks, whatever characters it is made of. -/
theorem quoted (name : String) : Fits write (quoteIdentifier name) [] (quoteIdentifier name) := by
  intro rest more
  have h : (quoteIdentifier name).toList = '"' :: (Quoted.encode '"' name.toList ++ ['"']) := by
    unfold quoteIdentifier quoteWith
    rw [String.toList_ofList]
  obtain ⟨hcount, hfill⟩ := inside write name.toList rest more
  rw [h, List.length_nil, Nat.zero_add, List.nil_append, List.cons_append, List.append_assoc,
    count_quote, fill_quote]
  refine ⟨hcount, (congrArg ('"' :: ·) hfill).trans ?_⟩
  rw [List.cons_append, List.append_assoc]
  rfl

theorem intercalate (write : HostValue → String) (ps : List (String × List HostValue × String))
    (h : ∀ p ∈ ps, Fits write p.1 p.2.1 p.2.2) :
    Fits write (",".intercalate (ps.map fun p => p.1)) (ps.flatMap fun p => p.2.1)
      (",".intercalate (ps.map fun p => p.2.2)) := by
  induction ps with
  | nil => exact plain rfl
  | cons p r ih =>
    have hp := h p List.mem_cons_self
    have hr := ih fun q hq => h q (List.mem_cons_of_mem _ hq)
    cases r with
    | nil =>
      rw [List.map_singleton, List.map_singleton, List.flatMap_singleton,
        String.intercalate_singleton, String.intercalate_singleton]
      exact hp
    | cons q r =>
      have hcomma : Fits write "," [] "," := plain (by decide)
      rw [List.map_cons, List.map_cons, List.map_cons, List.map_cons, List.flatMap_cons,
        String.intercalate_cons_cons, String.intercalate_cons_cons]
      have := (hp.append hcomma).append hr
      rwa [List.append_nil] at this

end Fits

end Marks

end RecordMapper
