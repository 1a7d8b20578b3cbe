import RecordMapper.Text.Quoted

/-!
# Texts that end at a zero character

The engine takes a statement, and a text that it matches with a pattern, to end at the first U+0000.
-/

namespace RecordMapper

/-- No character is zero. -/
def Zeroless (cs : List Char) : Prop := ∀ c ∈ cs, c.toNat ≠ 0

/-- The characters before the first that is zero. -/
def beforeZero (cs : List Char) : List Char := cs.takeWhile fun c => c.toNat != 0

/-- A text without a zero character. -/
def NoZero (text : String) : Prop := Zeroless text.toList

/-- The text up to its first zero character. -/
def untilZero (s : String) : String := String.ofList (beforeZero s.toList)

section Characters

variable {as bs cs : List Char} {c : Char}

instance : Decidable (Zeroless cs) :=
  decidable_of_iff (cs.all fun c => c.toNat != 0) (by simp [Zeroless])

theorem zeroless_nil : Zeroless [] := nofun

@[simp] theorem zeroless_cons : Zeroless (c :: cs) ↔ c.toNat ≠ 0 ∧ Zeroless cs :=
  List.forall_mem_cons

@[simp] theorem zeroless_append : Zeroless (as ++ bs) ↔ Zeroless as ∧ Zeroless bs :=
  List.forall_mem_append

theorem zeroless_of_forall {p : Char → Bool} (hp : p (Char.ofNat 0) = false)
    (h : ∀ c ∈ cs, p c = true) :
    Zeroless cs := by
  intro c hc hzero
  rw [show c = Char.ofNat 0 from Char.toNat_inj.mp hzero] at hc
  exact Bool.false_ne_true (hp.symm.trans (h _ hc))

theorem beforeZero_append (h : Zeroless as) : beforeZero (as ++ bs) = as ++ beforeZero bs :=
  List.takeWhile_append_of_pos fun c hc => bne_iff_ne.mpr (h c hc)

theorem Zeroless.beforeZero_eq (h : Zeroless cs) : beforeZero cs = cs := by
  have happend : beforeZero (cs ++ []) = cs ++ [] := beforeZero_append h
  rwa [List.append_nil] at happend

/-- Nothing behind a zero character counts. -/
theorem beforeZero_append_of_not (h : ¬Zeroless as) : beforeZero (as ++ bs) = beforeZero as := by
  induction as with
  | nil => exact absurd zeroless_nil h
  | cons c r ih =>
    unfold beforeZero
    rw [List.cons_append, List.takeWhile_cons, List.takeWhile_cons]
    split
    · rename_i hc
      exact congrArg (c :: ·) (ih fun hr => h (zeroless_cons.mpr ⟨bne_iff_ne.mp hc, hr⟩))
    · rfl

end Characters

section Texts

variable {s t : String}

instance : Decidable (NoZero s) := inferInstanceAs (Decidable (Zeroless s.toList))

@[simp] theorem noZero_append : NoZero (s ++ t) ↔ NoZero s ∧ NoZero t := by
  unfold NoZero
  rw [String.toList_append, zeroless_append]

theorem noZero_intercalate (hs : NoZero s) {ts : List String} :
    NoZero (s.intercalate ts) ↔ ∀ t ∈ ts, NoZero t := by
  induction ts with
  | nil =>
    rw [String.intercalate_nil]
    exact iff_of_true (by decide) nofun
  | cons t rest ih =>
    cases rest with
    | nil => rw [String.intercalate_singleton, List.forall_mem_singleton]
    | cons u rest =>
      rw [String.intercalate_cons_cons, noZero_append, noZero_append, and_iff_left hs, ih]
      exact List.forall_mem_cons.symm

theorem NoZero.untilZero_eq (h : NoZero s) : untilZero s = s := by
  unfold untilZero
  rw [Zeroless.beforeZero_eq h, String.ofList_toList]

end Texts

/-! ## Quoted texts -/

namespace Quoted

variable {quote : Char} {cs : List Char}

theorem zeroless_encode (h : quote.toNat ≠ 0) : Zeroless (encode quote cs) ↔ Zeroless cs := by
  induction cs with
  | nil => rfl
  | cons c r ih =>
    unfold encode
    split
    · rename_i hc
      rw [zeroless_cons, zeroless_cons, zeroless_cons, ih, hc, and_iff_right h]
    · rw [zeroless_cons, zeroless_cons, ih]

theorem beforeZero_encode (h : quote.toNat ≠ 0) :
    beforeZero (encode quote cs) = encode quote (beforeZero cs) := by
  induction cs with
  | nil => rfl
  | cons c r ih =>
    have hquote : (quote.toNat != 0) = true := bne_iff_ne.mpr h
    unfold beforeZero at ih ⊢
    rw [encode, List.takeWhile_cons]
    by_cases hc : c = quote
    · subst hc
      rw [if_pos rfl, List.takeWhile_cons, List.takeWhile_cons, hquote, if_pos rfl,
        if_pos rfl, if_pos rfl, encode, if_pos rfl, ih]
    · rw [if_neg hc, List.takeWhile_cons]
      split
      · rw [encode, if_neg hc, ih]
      · rfl

/-- Without its closing quote no text is read. -/
theorem decode_encode_eq_none (quote : Char) (cs : List Char) :
    decode quote (encode quote cs) = none := by
  induction cs with
  | nil => rfl
  | cons c r ih =>
    by_cases hc : c = quote
    · subst hc
      rw [encode, if_pos rfl, decode, if_pos rfl, if_pos rfl, ih]
      rfl
    · rw [encode, if_neg hc]
      cases hr : encode quote r with
      | nil => rw [decode, if_neg hc]
      | cons d t =>
        rw [decode, if_neg hc, ← hr, ih]
        rfl

end Quoted

/-- A name has a zero character where its quoted form has one. -/
@[simp] theorem noZero_quoteIdentifier {name : String} : NoZero (quoteIdentifier name) ↔
    NoZero name := by
  unfold NoZero quoteIdentifier quoteWith
  rw [String.toList_ofList, zeroless_cons, zeroless_append, Quoted.zeroless_encode (by decide),
    and_iff_right (by decide), and_iff_left (by decide)]

end RecordMapper
