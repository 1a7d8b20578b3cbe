/-!
# Text without regard to ASCII case

Identifiers of the storage engine, and names of columns and properties, are compared with the
twenty-six ASCII letters folded and every other character as it is.
-/

namespace RecordMapper

/-- The text with ASCII letters in lower case. -/
def foldCase (text : String) : String := String.ofList (text.toList.map Char.toLower)

/-- The text with ASCII letters in upper case. -/
def raiseCase (text : String) : String := String.ofList (text.toList.map Char.toUpper)

/-- Equality up to the case of ASCII letters. -/
def sameFolded (a b : String) : Bool := foldCase a == foldCase b

theorem sameFolded_refl (a : String) : sameFolded a a = true := by simp [sameFolded]

theorem sameFolded_comm (a b : String) : sameFolded a b = sameFolded b a := by
  simp only [sameFolded]; exact BEq.comm

theorem sameFolded_trans {a b c : String} (h₁ : sameFolded a b = true)
    (h₂ : sameFolded b c = true) : sameFolded a c = true := by
  simp only [sameFolded, beq_iff_eq] at *
  exact h₁.trans h₂

/-- Whether the text ends in `tail` up to the case of ASCII letters. -/
def endsFolded (text tail : String) : Bool :=
  (tail.toList.map Char.toLower).reverse.isPrefixOf (text.toList.map Char.toLower).reverse

end RecordMapper
