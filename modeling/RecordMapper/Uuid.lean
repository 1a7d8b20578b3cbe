import RecordMapper.Number.Power
import RecordMapper.Text.Bytes

/-!
# Unique identifiers

An identifier of a hundred and twenty-eight bits. It is written as thirty-two hexadecimal digits in
groups of 8, 4, 4, 4 and 12; it is also read without hyphens, in braces, or after `urn:uuid:`.
-/

namespace RecordMapper

structure Uuid where
  bits : BitVec 128
  deriving DecidableEq, Repr, Inhabited

namespace Uuid

def nil : Uuid := ⟨0⟩

def digits (u : Uuid) : List Char :=
  (List.range 32).map fun i => Bytes.hexDigit (u.bits.toNat / Nat.pow 16 (31 - i) % 16)

def text (u : Uuid) : String :=
  let ds := u.digits
  let group (start length : Nat) : List Char := (ds.drop start).take length
  String.ofList <|
    group 0 8 ++ '-' :: group 8 4 ++ '-' :: group 12 4 ++ '-' :: group 16 4 ++ '-' :: group 20 12

/-- The identifier of version four that keeps the other bits of a number. -/
def random (seed : Nat) : Uuid :=
  let n := seed % twoTo 128
  let high := n / twoTo 80 * twoTo 80
  let low := n % twoTo 62
  let mid := n / twoTo 64 % twoTo 12
  ⟨BitVec.ofNat 128 (high + 4 * twoTo 76 + mid * twoTo 64 + 2 * twoTo 62 + low)⟩

def ofDigits? (cs : List Char) : Option Uuid := do
  if cs.length ≠ 32 then none
  let n ← cs.foldlM (fun n c => (Bytes.hexValue? c).map (16 * n + ·)) 0
  return ⟨BitVec.ofNat 128 n⟩

def ofGroups? (cs : List Char) : Option Uuid :=
  match cs.drop 8, cs.drop 13, cs.drop 18, cs.drop 23 with
  | '-' :: _, '-' :: _, '-' :: _, '-' :: tail =>
    let group (start length : Nat) : List Char := (cs.drop start).take length
    ofDigits? (group 0 8 ++ group 9 4 ++ group 14 4 ++ group 19 4 ++ tail)
  | _, _, _, _ => none

/-- Whether a text starts with `urn:uuid:` in any case. -/
def isUrn (cs : List Char) : Bool := (cs.take 9).map Char.toLower == "urn:uuid:".toList

def isBraced (cs : List Char) : Bool := cs.head? == some '{' && cs.getLast? == some '}'

/-- The part of an input that has to hold the groups: what stands inside braces or after the urn
head in an input of the right length, otherwise all of it. -/
def core (cs : List Char) (bytes : Nat) : List Char :=
  if bytes = 38 ∧ isBraced cs then (cs.drop 1).dropLast
  else if bytes = 45 ∧ isUrn cs then cs.drop 9
  else cs

def offsets (start : Nat) : List Char → List (Nat × Char)
  | [] => []
  | c :: r => (start, c) :: offsets (start + c.utf8Size) r

/-- Why the characters `cs`, the core of an input, are no identifier. -/
def problem (cs : List Char) : String :=
  let bytes := Bytes.lengthOf cs
  let badLength := "invalid length: found " ++ toString bytes
  if bytes = 0 ∨ 45 < bytes then badLength
  else
    let whole := bytes = 36
    let stripped := if whole then 0 else if isBraced cs then 1 else if isUrn cs then 9 else 0
    let body : List Char :=
      if stripped = 0 then cs else if stripped = 1 then (cs.drop 1).dropLast else cs.drop 9
    match (offsets stripped body).find? fun (_, c) => (Bytes.hexValue? c).isNone && c != '-' with
    | some (place, c) => "invalid character: found `" ++ String.singleton c ++ "` at " ++
                           toString place
    | none =>
      let hyphens := ((offsets 0 body).filter fun (_, c) => c == '-').map Prod.fst
      if hyphens.isEmpty ∧ stripped = 0 ∧ ¬ whole then badLength
      else if hyphens.length ≠ 4 then
        "invalid group count: expected 5, found " ++ toString (hyphens.length + 1)
      else
        let places := [(0, 8, 0, 8), (1, 13, 9, 4), (2, 18, 14, 4), (3, 23, 19, 4)]
        let wrong := (hyphens.zip places).find? fun (found, _, wanted, _, _) => found != wanted
        let sentence (group expected found : Nat) : String :=
          "invalid group length in group " ++ toString group ++ ": expected "
            ++ toString expected ++ ", found " ++ toString found
        match wrong with
        | some (found, group, _, start, expected) => sentence group expected (found - start)
        | none => sentence 4 12 (bytes - 24)

/-- Reads an identifier, or says why the text is none. -/
def read (text : String) : Except String Uuid :=
  let cs := text.toList
  let inner := core cs text.utf8ByteSize
  match ofGroups? inner with
  | some u => .ok u
  | none =>
    match ofDigits? cs with
    | some u => .ok u
    | none => .error (problem inner)

end Uuid

end RecordMapper
