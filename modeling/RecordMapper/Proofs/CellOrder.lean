import Mathlib.Algebra.Order.Field.Rat
import Mathlib.Algebra.Order.Ring.Cast
import RecordMapper.Engine.Cell

/-!
# The order of cells

Cells are totally preordered under every collation, so it means something to sort by them.

1. Numbers are ordered by their rank and then by the rational number that they stand for.
2. Cells are ordered by their class, then as numbers, then by their bytes. To be the same is an
   equivalence.
-/

namespace RecordMapper

open Std

namespace BinaryView

/-- The number that a view stands for. -/
def value : BinaryView → ℚ
  | finite negative m e => signed negative m * 2 ^ e
  | _ => 0

theorem mul_twoTo_mul (s : Int) (e e' : Int) :
    ((s * (twoTo (e - e').toNat : Nat) : Int) : ℚ) * 2 ^ min e e' = s * 2 ^ e := by
  have h : ((e - e').toNat : Int) + min e e' = e := by omega
  have hpow : ((twoTo (e - e').toNat : Nat) : ℚ) = 2 ^ ((e - e').toNat : Int) := by
    rw [zpow_natCast]
    exact Nat.cast_pow 2 _
  rw [Int.cast_mul, Int.cast_natCast, hpow, mul_assoc, ← zpow_add₀ (by decide), h]

theorem order_finite (negative negative' : Bool) (m m' : Nat) (e e' : Int) :
    order (finite negative m e) (finite negative' m' e') =
      compare (value (finite negative m e)) (value (finite negative' m' e')) := by
  have hpos : (0 : ℚ) < 2 ^ min e e' := zpow_pos (by decide) _
  show compare _ _ = compare (_ * 2 ^ e : ℚ) (_ * 2 ^ e' : ℚ)
  rw [← cmp_eq_compare, ← cmp_eq_compare, ← mul_twoTo_mul _ e e', ← mul_twoTo_mul _ e' e,
    min_comm e' e, cmp_mul_pos_right hpos]
  exact ((Int.cast_strictMono (R := ℚ)).cmp_map_eq _ _).symm

/-- Numbers of different kinds are told apart by their rank. -/
theorem order_eq (x y : BinaryView) :
    order x y = compareLex (compareOn rank) (compareOn value) x y := by
  cases x with
  | finite negative m e =>
    cases y with
    | finite negative' m' e' => rw [order_finite]; rfl
    | nan => rfl
    | infinite negative' => cases negative' <;> rfl
  | nan => cases y with
    | finite negative' m' e' => rfl
    | nan => rfl
    | infinite negative' => cases negative' <;> rfl
  | infinite negative => cases y with
    | finite negative' m' e' => cases negative <;> rfl
    | nan => cases negative <;> rfl
    | infinite negative' => cases negative <;> cases negative' <;> rfl

instance : TransCmp order := by
  have h : order = compareLex (compareOn rank) (compareOn value) :=
    funext fun x => funext fun y => order_eq x y
  rw [h]
  infer_instance

end BinaryView

namespace Bytes

theorem order_eq_compareLex : ∀ x y : Bytes, order x y = List.compareLex compare x y
  | [], [] => rfl
  | [], _ :: _ => rfl
  | _ :: _, [] => rfl
  | a :: r, b :: s => by rw [order, order_eq_compareLex r s, List.compareLex_cons_cons]

instance : TransCmp order := by
  have h : order = List.compareLex compare :=
    funext fun x => funext fun y => order_eq_compareLex x y
  rw [h]
  infer_instance

end Bytes

/-- The order of what a function makes of two things. -/
theorem transCmp_on {α β : Type} (cmp : β → β → Ordering) [TransCmp cmp] (f : α → β) :
    TransCmp fun x y => cmp (f x) (f y) where
  eq_swap := OrientedCmp.eq_swap
  isLE_trans := TransCmp.isLE_trans

namespace Cell

instance (c : Collation) : TransCmp (order c) :=
  have := transCmp_on BinaryView.order view
  have := transCmp_on Bytes.order (sortBytes c)
  inferInstanceAs (TransCmp (compareLex _ (compareLex _ _)))

/-! ### Cells that are the same -/

variable {c : Collation} {x y z : Cell}

theorem isNull_iff : x.isNull = true ↔ x = .null := by
  cases x <;> simp [isNull]

theorem same_null_right (c : Collation) (x : Cell) : same c x .null = x.isNull := by
  cases x <;> rfl

theorem same_null_left (c : Collation) (x : Cell) : same c .null x = x.isNull := by
  cases x <;> rfl

theorem same_self (c : Collation) (x : Cell) : same c x x = true :=
  beq_iff_eq.mpr ReflCmp.compare_self

theorem same_comm (c : Collation) (x y : Cell) : same c x y = same c y x := by
  unfold same
  have hswap : order c x y = (order c y x).swap := OrientedCmp.eq_swap
  rw [hswap]
  cases order c y x <;> rfl

theorem same_trans (hxy : same c x y = true) (hyz : same c y z = true) : same c x z = true :=
  beq_iff_eq.mpr (TransCmp.eq_trans (beq_iff_eq.mp hxy) (beq_iff_eq.mp hyz))

/-- Null is the same as null only. -/
theorem isNull_of_same (h : same c x y = true) : x.isNull = y.isNull := by
  by_cases hx : x = .null
  · rw [hx, same_null_left] at h
    rw [hx, h]
    rfl
  · by_cases hy : y = .null
    · rw [hy, same_null_right] at h
      rw [hy, h]
      rfl
    · rw [Bool.eq_false_iff.mpr fun h => hx (isNull_iff.mp h),
        Bool.eq_false_iff.mpr fun h => hy (isNull_iff.mp h)]

end Cell

end RecordMapper
