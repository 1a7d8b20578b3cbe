import RecordMapper.Field
import RecordMapper.Proofs.StoredTimes

/-!
# Round trips of fields

What a field holds comes back after it was stored in a cell and read.

1. `Uuid.read_text`: the text of an identifier is read as the identifier.
2. `Content.Holds`: the values that a field holds, floats and decimals left out.
3. `Value.stored`: what storing leaves of a value: times are cut off to whole ticks and lose their
   offsets, everything else stays.
4. `FieldType.restores`: a field that takes what its cell is read as holds what storing left.
-/

namespace RecordMapper

open Bytes (hexDigit hexValue?)

/-! ## Identifiers -/

namespace Uuid

theorem hexValue?_hexDigit {k : Nat} (h : k < 16) : hexValue? (hexDigit k) = some k := by
  have hall : ∀ k, k < 16 → hexValue? (hexDigit k) = some k := by decide
  exact hall k h

def lastDigits (k n : Nat) : List Char :=
  (List.range k).map fun i => hexDigit (n / Nat.pow 16 (k - 1 - i) % 16)

theorem lastDigits_succ (k n : Nat) :
    lastDigits (k + 1) n = lastDigits k (n / 16) ++ [hexDigit (n % 16)] := by
  unfold lastDigits
  rw [List.range_succ, List.map_append, List.map_singleton]
  congr 1
  · refine List.map_congr_left fun i hi => ?_
    have hlt := List.mem_range.mp hi
    have hexp : k + 1 - 1 - i = (k - 1 - i) + 1 := by omega
    have hpow : Nat.pow 16 (k - 1 - i + 1) = 16 * Nat.pow 16 (k - 1 - i) := by
      rw [Nat.mul_comm]
      rfl
    rw [hexp, hpow, Nat.div_div_eq_div_mul]
  · have hexp : k + 1 - 1 - k = 0 := by omega
    rw [hexp]
    simp

theorem foldlM_lastDigits (k n : Nat) :
    (lastDigits k n).foldlM (fun n c => (hexValue? c).map (16 * n + ·)) 0 =
      some (n % Nat.pow 16 k) := by
  induction k generalizing n with
  | zero =>
    show some 0 = some (n % 1)
    rw [Nat.mod_one]
  | succ k ih =>
    have hmod : 16 * (n / 16 % Nat.pow 16 k) + n % 16 = n % Nat.pow 16 (k + 1) := by
      have hpow : Nat.pow 16 (k + 1) = 16 * Nat.pow 16 k := Nat.mul_comm (Nat.pow 16 k) 16
      rw [hpow, Nat.mod_mul]
      omega
    rw [lastDigits_succ, List.foldlM_append, ih]
    show ((hexValue? (hexDigit (n % 16))).map (16 * (n / 16 % Nat.pow 16 k) + ·)).bind some = _
    rw [hexValue?_hexDigit (Nat.mod_lt n (by decide)), Option.map_some, Option.bind_some, hmod]

theorem ofDigits?_digits (u : Uuid) : ofDigits? u.digits = some u := by
  have hdigits : u.digits = lastDigits 32 u.bits.toNat := rfl
  have hlt : u.bits.toNat < Nat.pow 16 32 := u.bits.isLt
  have hlen : (lastDigits 32 u.bits.toNat).length = 32 := by simp [lastDigits]
  unfold ofDigits?
  rw [hdigits, foldlM_lastDigits, Nat.mod_eq_of_lt hlt, hlen]
  simp

theorem length_digits (u : Uuid) : u.digits.length = 32 := by simp [digits]

theorem ofGroups?_groups {a b c d : List Char} (ha : a.length = 8) (hb : b.length = 4)
    (hc : c.length = 4) (hd : d.length = 4) (e : List Char) :
    ofGroups? (a ++ '-' :: (b ++ '-' :: (c ++ '-' :: (d ++ '-' :: e)))) =
      ofDigits? (a ++ b ++ c ++ d ++ e) := by
  have hafter : ∀ {n k : Nat} {cs : List Char} (x y : List Char), x.length = k →
      cs.drop n = x ++ '-' :: y → cs.drop (n + k) = '-' :: y ∧ cs.drop (n + k + 1) = y := by
    intro n k cs x y hx hcs
    have hk : cs.drop (n + k) = '-' :: y := by rw [← List.drop_drop, hcs, List.drop_left' hx]
    exact ⟨hk, by rw [← List.drop_drop, hk, List.drop_succ_cons, List.drop_zero]⟩
  generalize hcs : a ++ '-' :: (b ++ '-' :: (c ++ '-' :: (d ++ '-' :: e))) = cs
  have h0 : cs.drop 0 = a ++ '-' :: (b ++ '-' :: (c ++ '-' :: (d ++ '-' :: e))) := hcs.symm
  obtain ⟨h8, h9⟩ := hafter a _ ha h0
  obtain ⟨h13, h14⟩ := hafter b _ hb h9
  obtain ⟨h18, h19⟩ := hafter c _ hc h14
  obtain ⟨h23, -⟩ := hafter d _ hd h19
  unfold ofGroups?
  rw [h8, h13, h18, h23]
  dsimp only
  rw [h0, h9, h14, h19, List.take_left' ha, List.take_left' hb, List.take_left' hc,
    List.take_left' hd]
  rfl

theorem ofGroups?_text (u : Uuid) : ofGroups? u.text.toList = some u := by
  have hlen := u.length_digits
  have hgroups : (u.digits.drop 0).take 8 ++ (u.digits.drop 8).take 4 ++
    (u.digits.drop 12).take 4 ++
      (u.digits.drop 16).take 4 ++ (u.digits.drop 20).take 12 = u.digits := by
    have htake : ∀ n k : Nat, u.digits.take n ++ (u.digits.drop n).take k = u.digits.take (n + k) :=
      fun n k => List.take_add.symm
    rw [List.drop_zero, htake, htake, htake, htake, List.take_of_length_le (by omega)]
  unfold text
  rw [String.toList_ofList]
  simp only [List.append_assoc, List.cons_append]
  rw [ofGroups?_groups (by simp [hlen]) (by simp [hlen]) (by simp [hlen]) (by simp [hlen]), hgroups,
    ofDigits?_digits]

theorem head_text (u : Uuid) : ∃ k r, k < 16 ∧ u.text.toList = hexDigit k :: r := by
  have hhead : u.text.toList.head? = some (hexDigit (u.bits.toNat / Nat.pow 16 31 % 16)) := by
    unfold text
    rw [String.toList_ofList]
    rfl
  obtain ⟨r, hr⟩ := List.head?_eq_some_iff.mp hhead
  exact ⟨_, r, Nat.mod_lt _ (by decide), hr⟩

theorem core_text (u : Uuid) (bytes : Nat) : core u.text.toList bytes = u.text.toList := by
  obtain ⟨k, r, hk, htext⟩ := u.head_text
  have hhex : ∀ k, k < 16 → hexDigit k ≠ '{' ∧ (hexDigit k).toLower ≠ 'u' := by decide
  have hbraced : isBraced u.text.toList = false := by
    rw [htext, isBraced, List.head?_cons]
    simp [(hhex k hk).1]
  have hurn : isUrn u.text.toList = false := by
    rw [htext, isUrn]
    show ((hexDigit k).toLower :: _ == 'u' :: _) = false
    simp [(hhex k hk).2]
  unfold core
  rw [hbraced, hurn, if_neg (by simp), if_neg (by simp)]

/-- The text of an identifier is read as the identifier. -/
theorem read_text (u : Uuid) : read u.text = .ok u := by
  unfold read
  dsimp only
  rw [core_text, ofGroups?_text]

end Uuid

/-! ## What fields hold -/

/-- The values that a field holds; where timestamps are stored as ticks, no leap seconds. -/
inductive Content.Holds (ticks : Bool) : Content → Value → Prop
  | bool (b : Bool) : Holds ticks (.plain .bool) (.bool b)
  | int {t : DataType} {i : Int64} (ht : t.isInteger = true)
      (h : t.range.1 ≤ i.toInt ∧ i.toInt ≤ t.range.2) : Holds ticks (.plain t) (.int i)
  | text (s : String) : Holds ticks (.plain .text) (.text s)
  | blob (bytes : Bytes) : Holds ticks (.plain .blob) (.blob bytes)
  | interval (d : Interval) : Holds ticks (.plain .duration) (.interval d)
  | timestamp {t : Timestamp} (h : t.Told) (hleap : ticks = true → t.nanos < 1000000000) :
      Holds ticks (.plain .datetime) (.timestamp t)
  | offsetTimestamp {t : OffsetTimestamp} (h : t.utc.Supported) :
      Holds ticks (.plain .offsetDatetime) (.offsetTimestamp t)
  | uuid (u : Uuid) : Holds ticks (.plain .uuid) (.uuid u)
  | variant {e : Enumeration} {variant : String} {i : Int64} (h : (variant, i) ∈ e.variants) :
      Holds ticks (.enumeration e) (.int i)

/-- An optional field also holds null. -/
def FieldType.Holds (ticks : Bool) (t : FieldType) (v : Value) : Prop :=
  (t.optional = true ∧ v = .null) ∨ t.content.Holds ticks v

/-- The values of the type of a field, whether or not they are read back. -/
inductive Content.Carries : Content → Value → Prop
  | bool (b : Bool) : Carries (.plain .bool) (.bool b)
  | int {t : DataType} (ht : t.isInteger = true) (i : Int64) : Carries (.plain t) (.int i)
  | text (s : String) : Carries (.plain .text) (.text s)
  | blob (bytes : Bytes) : Carries (.plain .blob) (.blob bytes)
  | interval (d : Interval) : Carries (.plain .duration) (.interval d)
  | timestamp (t : Timestamp) : Carries (.plain .datetime) (.timestamp t)
  | offsetTimestamp (t : OffsetTimestamp) : Carries (.plain .offsetDatetime) (.offsetTimestamp t)
  | uuid (u : Uuid) : Carries (.plain .uuid) (.uuid u)
  | variant (e : Enumeration) (i : Int64) : Carries (.enumeration e) (.int i)

/-- An optional field also carries null. -/
def FieldType.Carries (t : FieldType) (v : Value) : Prop :=
  (t.optional = true ∧ v = .null) ∨ t.content.Carries v

theorem Content.Holds.carries {ticks : Bool} {c : Content} {v : Value} (h : c.Holds ticks v) :
    c.Carries v := by
  cases h with
  | bool b => exact .bool b
  | int ht _ => exact .int ht _
  | text s => exact .text s
  | blob bytes => exact .blob bytes
  | interval d => exact .interval d
  | timestamp _ _ => exact .timestamp _
  | offsetTimestamp _ => exact .offsetTimestamp _
  | uuid u => exact .uuid u
  | variant _ => exact .variant _ _

theorem FieldType.Holds.carries {ticks : Bool} {t : FieldType} {v : Value} (h : t.Holds ticks v) :
    t.Carries v := h.imp id Content.Holds.carries

/-- What storing leaves of a value. -/
def Value.stored (ticks : Bool) : Value → Value
  | .timestamp t => .timestamp (if ticks then Tick.start t else t)
  | .offsetTimestamp t => .offsetTimestamp ⟨Tick.start t.utc, 0⟩
  | .interval d => .interval ⟨d.nanoseconds.tdiv 100 * 100⟩
  | v => v

/-! ## Reading what was stored -/

theorem Cell.readTimestamp_text {t : Timestamp} (h : t.Told) :
    (text t.storedText).readTimestamp = .ok t := by
  unfold readTimestamp readText
  dsimp only
  rw [t.unspaced_storedText.trimmed_eq, Timestamp.read_storedText h]

theorem Cell.read_datetime {c : Cell} (h : c.isNull = false) :
    c.read .datetime = c.readTimestamp.map .timestamp := by
  unfold read
  rw [h]
  rfl

namespace Content

variable {ticks : Bool} {c : Content} {v : Value} {cell : Cell} {t : DataType} {i : Int64}

theorem readAs_integer (ht : t.isIntegral = true) (i : Int64) :
    Cell.readAs t (.integer i) = .ok (.int i) := by
  cases t <;> first | rfl | cases ht

theorem takePlain_integer (ht : t.isInteger = true)
    (h : t.range.1 ≤ i.toInt ∧ i.toInt ≤ t.range.2) :
    takePlain t (.int i) = .ok (.int i) := by
  have hrange : Value.inRange i t = .ok (.int i) := if_pos h
  cases t <;> first | exact hrange | cases ht

theorem takeVariant_of_mem {e : Enumeration} {variant : String} (h : (variant, i) ∈ e.variants) :
    takeVariant e (.int i) = .ok (.int i) := by
  have hany : (e.variants.any fun x => i == x.2) = true :=
    List.any_eq_true.mpr ⟨(variant, i), h, beq_self_eq_true i⟩
  exact if_pos hany

theorem of_map_integer {x : Except TypeFault Int64} (h : x.map .integer = .ok cell) :
    ∃ n, x = .ok n ∧ cell = .integer n := by
  cases x with
  | error fault => cases h
  | ok n =>
    cases h
    exact ⟨n, rfl, rfl⟩

/-- The cell of a value is read, at the type of the field, as a value that the field takes as what
storing left; and this is not null. -/
theorem take_read (hv : c.Holds ticks v) (hc : v.toCell ticks = .ok cell) :
    ∃ w, cell.read c.dataType = .ok w ∧ w.isNull = false ∧ c.take w = .ok (v.stored ticks) := by
  cases hv with
  | bool b =>
    cases hc
    cases b <;> exact ⟨_, rfl, rfl, rfl⟩
  | @int t i ht h =>
    cases hc
    exact ⟨.int i, readAs_integer (Bool.or_eq_true _ _ ▸ .inl ht) i, rfl, takePlain_integer ht h⟩
  | text s =>
    cases hc
    exact ⟨_, rfl, rfl, rfl⟩
  | blob bytes =>
    cases hc
    exact ⟨_, rfl, rfl, rfl⟩
  | interval d =>
    obtain ⟨n, hn, rfl⟩ := of_map_integer hc
    exact ⟨_, rfl, rfl, congrArg (Except.ok ∘ Value.interval) (Tick.toInterval_of_ofInterval hn)⟩
  | @timestamp t h hleap =>
    cases ticks with
    | true =>
      obtain ⟨n, hn, rfl⟩ := of_map_integer hc
      refine ⟨.timestamp (Tick.start t), ?_, rfl, rfl⟩
      show (Tick.toTimestamp n).map Value.timestamp = _
      rw [Tick.toTimestamp_of_ofTimestamp ⟨h.1, h.2.1, hleap rfl⟩ hn]
      rfl
    | false =>
      obtain rfl : .text t.storedText = cell := Except.ok.inj hc
      refine ⟨.timestamp t, ?_, rfl, rfl⟩
      rw [dataType, Cell.read_datetime rfl, Cell.readTimestamp_text h]
      rfl
  | @offsetTimestamp t h =>
    obtain ⟨n, hn, rfl⟩ := of_map_integer hc
    refine ⟨.offsetTimestamp ⟨Tick.start t.utc, 0⟩, ?_, rfl, rfl⟩
    show ((Tick.toTimestamp n).map fun t => Value.offsetTimestamp ⟨t, 0⟩) = _
    rw [Tick.toTimestamp_of_ofTimestamp h hn]
    rfl
  | uuid u =>
    cases hc
    refine ⟨.uuid u, ?_, rfl, rfl⟩
    show (uuidOfText u.text).map Value.uuid = _
    unfold uuidOfText
    rw [u.read_text]
    rfl
  | @variant e variant i h =>
    cases hc
    exact ⟨.int i, rfl, rfl, takeVariant_of_mem h⟩

end Content

namespace FieldType

variable {ticks : Bool} {t : FieldType} {v : Value} {cell : Cell}

/-- **A stored field comes back.** Where what a field holds can be stored in a cell, the cell is
read at the type of the field, and the field takes what was read as what storing left: the same
value, an interval cut off toward zero to whole ticks, a timestamp counted in ticks as the start of
its tick, and one with an offset as the same instant without an offset. -/
theorem restores (hv : t.Holds ticks v) (hc : v.toCell ticks = .ok cell) :
    (do t.take (← cell.read t.dataType)) = .ok (v.stored ticks) := by
  obtain ⟨hoptional, rfl⟩ | hv := hv
  · cases hc
    show t.take .null = .ok .null
    unfold take
    rw [hoptional]
  · obtain ⟨w, hread, hnull, htake⟩ := t.content.take_read hv hc
    show (do t.take (← cell.read t.content.dataType)) = _
    rw [hread]
    show t.take w = _
    unfold take
    split
    · cases hnull
    · exact htake

/-- A leap second at the end of a year before the year zero. -/
theorem restores_leapSecond :
    Timestamp.Told ⟨-63082281601, 1500000000⟩ ∧
    (Value.timestamp ⟨-63082281601, 1500000000⟩).toCell false =
      .ok (.text (Timestamp.storedText ⟨-63082281601, 1500000000⟩)) ∧
    (do
      let w ← (Cell.text (Timestamp.storedText ⟨-63082281601, 1500000000⟩)).read .datetime
      FieldType.take ⟨.plain .datetime, true⟩ w) =
        .ok (.timestamp ⟨-63082281601, 1500000000⟩) := by
  have htold : Timestamp.Told ⟨-63082281601, 1500000000⟩ :=
    ⟨by decide, by decide, .inr ⟨by decide, by decide⟩⟩
  have hholds : FieldType.Holds false ⟨.plain .datetime, true⟩
      (.timestamp ⟨-63082281601, 1500000000⟩) :=
    .inr (.timestamp htold fun h => by cases h)
  exact ⟨htold, rfl, restores hholds rfl⟩

end FieldType

end RecordMapper
