/-!
# Bytes

Byte strings, their hexadecimal form, and text recovered from bytes: where bytes are no UTF-8, each
maximal broken piece becomes one replacement character.
-/

namespace RecordMapper

abbrev Bytes := List UInt8

namespace Bytes

def hexDigit (n : Nat) : Char := if n < 10 then Char.ofNat (48 + n) else Char.ofNat (87 + n)

def toHex (bytes : Bytes) : String :=
  String.ofList (bytes.flatMap fun b => [hexDigit (b.toNat / 16), hexDigit (b.toNat % 16)])

def hexValue? (c : Char) : Option Nat :=
  if '0' ≤ c ∧ c ≤ '9' then some (c.toNat - 48)
  else if 'a' ≤ c ∧ c ≤ 'f' then some (c.toNat - 87)
  else if 'A' ≤ c ∧ c ≤ 'F' then some (c.toNat - 55)
  else none

/-- The bytes written by pairs of hexadecimal digits. -/
def ofHexChars? : List Char → Option Bytes
  | [] => some []
  | [_] => none
  | a :: b :: r => do
    let hi ← hexValue? a
    let lo ← hexValue? b
    let rest ← ofHexChars? r
    return UInt8.ofNat (16 * hi + lo) :: rest

def ofHex? (text : String) : Option Bytes := ofHexChars? text.toList

def ofString (text : String) : Bytes := text.toUTF8.toList

/-- The number of bytes that some characters take. -/
def lengthOf (cs : List Char) : Nat := cs.foldr (fun c n => c.utf8Size + n) 0

def text? (bytes : Bytes) : Option String := String.fromUTF8? (ByteArray.mk bytes.toArray)

/-! ## Decoding with replacement -/

/-- How many continuation bytes follow a lead byte, and the range of the first of them. -/
def continuation (lead : Nat) : Option (Nat × Nat × Nat) :=
  if lead < 0xc2 then none
  else if lead ≤ 0xdf then some (1, 0x80, 0xbf)
  else if lead = 0xe0 then some (2, 0xa0, 0xbf)
  else if lead = 0xed then some (2, 0x80, 0x9f)
  else if lead ≤ 0xef then some (2, 0x80, 0xbf)
  else if lead = 0xf0 then some (3, 0x90, 0xbf)
  else if lead ≤ 0xf3 then some (3, 0x80, 0xbf)
  else if lead = 0xf4 then some (3, 0x80, 0x8f)
  else none

/-- Reads up to `n` continuation bytes: the code point if all are there, and the rest. -/
def continued : Nat → Nat → Nat → Nat → Bytes → Option Nat × Bytes
  | 0, _, _, value, bytes => (some value, bytes)
  | _ + 1, _, _, _, [] => (none, [])
  | n + 1, low, high, value, b :: r =>
    if low ≤ b.toNat ∧ b.toNat ≤ high then continued n 0x80 0xbf (64 * value + b.toNat % 64) r
    else (none, b :: r)

/-- The first character of a non-empty byte string, and the rest. -/
def step (b : UInt8) (r : Bytes) : Char × Bytes :=
  if b.toNat < 0x80 then (Char.ofNat b.toNat, r)
  else
    match continuation b.toNat with
    | none => (Char.ofNat 0xfffd, r)
    | some (n, low, high) =>
      let start := if n = 1 then b.toNat % 32 else if n = 2 then b.toNat % 16 else b.toNat % 8
      match continued n low high start r with
      | (some value, rest) => (Char.ofNat value, rest)
      | (none, rest) => (Char.ofNat 0xfffd, rest)

/-- Decodes with fuel; every step consumes at least one byte. -/
def decodeLossy : Nat → Bytes → List Char
  | 0, _ => []
  | _ + 1, [] => []
  | fuel + 1, b :: r =>
    let (c, rest) := step b r
    c :: decodeLossy fuel rest

/-- The text of the bytes, broken pieces replaced. -/
def toText (bytes : Bytes) : String :=
  match bytes.text? with
  | some text => text
  | none => String.ofList (decodeLossy bytes.length bytes)

/-- Byte strings in lexicographic order. -/
def order : Bytes → Bytes → Ordering
  | [], [] => .eq
  | [], _ :: _ => .lt
  | _ :: _, [] => .gt
  | a :: r, b :: s => (compare a b).then (order r s)

end Bytes

end RecordMapper
