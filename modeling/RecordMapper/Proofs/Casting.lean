import RecordMapper.Proofs.Coercing
import RecordMapper.Proofs.Framing
import RecordMapper.Proofs.NullComparisons

/-!
# Casting twice

A second cast to the same type does nothing that the first has not done.

1. `Value.coerce_coerce`: a coerced value is a fixed point of its coercion, whatever kind it was of.
   Floats of thirty-two bits are left out: an integer becomes a float there that is not rounded yet.
2. `Compiled.convert_convert`: so is a node that was converted, with the argument that it
   stands for.
3. `Mapping.cast_twice`: a cast of a cast compiles to what the cast compiles to. Where it stands for
   a value, this is the only argument that it appends.
-/

namespace RecordMapper

/-! ## Values -/

namespace Value

variable {v w : Value} {t : DataType}

theorem inRange_inRange {i : Int64} (h : inRange i t = .ok w) : w.toIntegral t = .ok w := by
  unfold inRange at h
  split at h
  · rename_i hi
    cases h
    exact inRange_of_has hi
  · cases h

theorem toIntegral_toIntegral (ht : t.isIntegral = true) (h : v.toIntegral t = .ok w) :
    w.toIntegral t = .ok w := by
  cases v with
  | bool b =>
    cases h
    cases b
    · exact inRange_of_has (DataType.has_zero ht)
    · exact inRange_of_has (DataType.has_one ht)
  | int i => exact inRange_inRange h
  | float x =>
    obtain ⟨i, hi⟩ := Alike.integralOfFloat_inRange h
    exact inRange_inRange hi
  | decimal d => exact inRange_inRange h
  | _ =>
    cases h
    rfl

theorem coerce_integral (ht : t.isIntegral = true) (v : Value) : v.coerce t = v.toIntegral t := by
  cases v with
  | null => rfl
  | _ => exact if_pos ht

/-- A coerced value stays as it is under the same coercion. -/
theorem coerce_coerce (hne : t ≠ .float32) (h : v.coerce t = .ok w) : w.coerce t = .ok w := by
  by_cases hi : t.isIntegral = true
  · rw [coerce_integral hi] at h ⊢
    exact toIntegral_toIntegral hi h
  · -- Decimals and identifiers are made of floats and texts; elsewhere the value is there at once.
    cases t with
    | float32 => exact absurd rfl hne
    | decimal =>
      cases v with
      | float x =>
        obtain ⟨d, rfl⟩ := Alike.of_map_ok h
        rfl
      | _ =>
        cases h
        rfl
    | uuid =>
      cases v with
      | text s =>
        obtain ⟨u, rfl⟩ := Alike.of_map_ok h
        rfl
      | _ =>
        cases h
        rfl
    | _ => first | exact absurd rfl hi | (cases v <;> (cases h; rfl))

end Value

/-! ## Nodes -/

namespace Compiled

open Compiling

theorem replaceLast_replaceLast (v : HostValue) (args : List HostValue) :
    replaceLast v (replaceLast v args) = replaceLast v args := by
  rcases args.eq_nil_or_concat' with rfl | ⟨rest, last, rfl⟩
  · rfl
  · rw [Emits.replaceLast_append, Emits.replaceLast_append]

theorem convert_scalar {c : Compiled} {v w : Value} {t : DataType} (hc : c.value = some (.scalar v))
    (hv : v.isNull = false) (hw : v.coerce t = .ok w) (args : List HostValue) :
    c.convert t args = .ok ({ text := c.text, value := some (.scalar w), type := some t },
      replaceLast (.scalar w) args) := by
  unfold convert
  simp only [hc, hv, hw]
  rfl

/-- A converted node stays as it is under the same conversion, and so do the arguments. -/
theorem convert_convert {t : DataType} (hne : t ≠ .float32) (c : Compiled) :
    (c.convert t >>= fun c => c.convert t) = c.convert t := by
  have hkeep : c.convert t = pure { c with type := some t } →
      (c.convert t >>= fun c => c.convert t) = c.convert t := fun h => by
    rw [h, pure_bind, ← h]
    unfold convert
    rfl
  rcases c with ⟨text, _ | v | items | ⟨typeName, members⟩, type⟩
  · exact hkeep rfl
  · cases hv : v.isNull with
    | true =>
      refine hkeep ?_
      simp only [convert, hv, if_true]
    | false =>
      funext args
      cases hcoerce : v.coerce t with
      | error fault =>
        have hfail : convert ⟨text, some (.scalar v), type⟩ t args = .error (.type fault) := by
          simp only [convert, hv, hcoerce]
          rfl
        rw [bind_error hfail, hfail]
      | ok w =>
        have hw := Value.coerce_coerce hne hcoerce
        have hnull : w.isNull = false := Value.coerce_not_null hv hcoerce
        rw [bind_ok (convert_scalar rfl hv hcoerce args), convert_scalar rfl hnull hw,
          convert_scalar rfl hv hcoerce, replaceLast_replaceLast]
  · exact hkeep rfl
  · exact hkeep rfl

end Compiled

/-! ## Expressions -/

namespace Mapping

/-- **Casting twice is casting once.** A cast of a cast has the outcome of the cast, whatever it is
applied to and whatever arguments stand before: the same error, or the same text, value, type and
arguments. A value that was coerced is not changed by the same coercion. Where a cast stands for a
value, this is its only argument: no other argument was overwritten. -/
theorem cast_twice (m : Mapping) (e : Expression) (args : List HostValue) {t : DataType}
    (hne : t ≠ .float32) :
    m.compile (.convert (.convert e t) t) args = m.compile (.convert e t) args ∧
      (∀ v w : Value, v.coerce t = .ok w → w.coerce t = .ok w) ∧
      ∀ c after, m.compile (.convert e t) args = .ok (c, after) →
        ∀ v, c.value = some (.scalar v) → after = args ++ [.scalar v] := by
  refine ⟨congrFun ?_ args, fun v w => Value.coerce_coerce hne, fun c after h v hv => ?_⟩
  · calc m.compile (.convert (.convert e t) t)
        = (m.compile e >>= fun c => c.convert t) >>= fun c => c.convert t := rfl
      _ = m.compile e >>= fun c => c.convert t >>= fun c => c.convert t := bind_assoc _ _ _
      _ = m.compile (.convert e t) := by
        simp only [Compiled.convert_convert hne]
        rfl
  · rcases m.framed_compile (.convert e t) with ⟨fault, hx⟩ | ⟨c', own, hcarries, hx⟩
    · rw [hx] at h
      cases h
    · rw [hx] at h
      cases h
      rw [hcarries _ hv]
      rfl

/-- A float behind an argument of an earlier condition, cast to a decimal. -/
theorem cast_twice_decimal :
    DataType.decimal ≠ .float32 ∧
    (default : Mapping).compile (.convert (.convert (.constant (.scalar (.float 2.5))) .decimal) .decimal)
        [.scalar .null] =
      (default : Mapping).compile (.convert (.constant (.scalar (.float 2.5))) .decimal)
      [.scalar .null] ∧
    (Value.float 2.5).coerce .decimal = .ok (.decimal ⟨25, 1⟩) ∧
    (Value.decimal ⟨25, 1⟩).coerce .decimal = .ok (.decimal ⟨25, 1⟩) := by
  have hcoerce : (Value.float 2.5).coerce .decimal = .ok (.decimal ⟨25, 1⟩) := by decide +kernel
  obtain ⟨htwice, hvalue, -⟩ :=
    cast_twice default (.constant (.scalar (.float 2.5))) [.scalar .null]
    (t := .decimal) (by decide)
  exact ⟨by decide, htwice, hcoerce, hvalue _ _ hcoerce⟩

end Mapping

end RecordMapper
