/-!
# Sets of code points

A set of characters given by ascending ranges of code points, written as hexadecimal numbers and
ranges with a hyphen.
-/

namespace RecordMapper

namespace CodePoints

/-- A hexadecimal numeral in lower case. -/
def hexNumeral (cs : List Char) : Nat :=
  cs.foldl (fun n c => 16 * n + (if c.toNat < 97 then c.toNat - 48 else c.toNat - 87)) 0

def range (cs : List Char) : Nat × Nat :=
  let low := cs.takeWhile (· != '-')
  match cs.dropWhile (· != '-') with
  | _ :: high => (hexNumeral low, hexNumeral high)
  | [] => (hexNumeral low, hexNumeral low)

/-- Splits a list of characters at blanks. -/
def words (cs : List Char) : List (List Char) :=
  (cs.foldr (fun c (word, rest) => if c = ' ' then ([], word :: rest) else (c :: word, rest))
    ([], [])) |> fun (word, rest) => (word :: rest).filter (fun w => !w.isEmpty)

/-- The ranges that some lines name. -/
def ofLines (lines : List String) : Array (Nat × Nat) :=
  (lines.flatMap fun line => (words line.toList).map range).toArray

/-- Whether a code point lies in one of the ranges. -/
def contains (ranges : Array (Nat × Nat)) (n : Nat) : Bool :=
  ranges.any fun (low, high) => decide (low ≤ n) && decide (n ≤ high)

end CodePoints

end RecordMapper
