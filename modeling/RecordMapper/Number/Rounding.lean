/-!
# Rounding a quotient

`halfEven num den` is the integer nearest to `num / den`, a tie going to the even neighbour. Every
rounding of a number to an integer, to a narrower float or to a count of units goes through it.
-/

namespace RecordMapper

/-- The integer nearest to `num / den`, ties to the even neighbour. -/
def halfEven (num den : Nat) : Nat :=
  let q := num / den
  let r := num % den
  if 2 * r < den then q else if den < 2 * r then q + 1 else q + q % 2

/-- The rounded quotient is at most half a unit from the quotient. -/
theorem halfEven_near {num den : Nat} (h : 0 < den) :
    2 * (halfEven num den * den) ≤ 2 * num + den ∧
    2 * num ≤ 2 * (halfEven num den * den) + den := by
  have hd := Nat.div_add_mod num den
  have hm := Nat.mod_lt num h
  have he : num / den * den = den * (num / den) := Nat.mul_comm _ _
  simp only [halfEven]
  split
  · omega
  · split
    · rw [Nat.add_mul]; omega
    · have : num / den % 2 = 0 ∨ num / den % 2 = 1 := by omega
      rcases this with h2 | h2 <;> rw [h2] <;> simp only [Nat.add_mul] <;> omega

end RecordMapper
