/-!
# Quoted text

An identifier is written between double quotes and a text literal between single quotes; the quote
itself is written twice inside. Reading accepts exactly what writing produces. That the engine takes
a statement to end at a zero character is no part of quoting.
-/

namespace RecordMapper

namespace Quoted

/-- The characters with every `quote` doubled. -/
def encode (quote : Char) : List Char → List Char
  | [] => []
  | c :: r => if c = quote then quote :: quote :: encode quote r else c :: encode quote r

/-- The characters up to the closing quote with doubled quotes undone, and what follows it. -/
def decode (quote : Char) : List Char → Option (List Char × List Char)
  | [] => none
  | [c] => if c = quote then some ([], []) else none
  | c :: d :: r =>
    if c = quote then
      if d = quote then (decode quote r).map fun (s, rest) => (quote :: s, rest)
      else some ([], d :: r)
    else (decode quote (d :: r)).map fun (s, rest) => (c :: s, rest)

/-- A quoted text reads back, whatever follows that is not the quote. -/
theorem decode_encode (quote : Char) (s rest : List Char) (h : rest.head? ≠ some quote) :
    decode quote (encode quote s ++ quote :: rest) = some (s, rest) := by
  induction s with
  | nil =>
    cases rest with
    | nil => simp [encode, decode]
    | cons d r =>
      have : d ≠ quote := by simpa using h
      simp [encode, decode, this]
  | cons c r ih =>
    by_cases hc : c = quote
    · subst hc
      simp [encode, decode, ih]
    · cases hr : encode quote r ++ quote :: rest with
      | nil => simp at hr
      | cons d t =>
        simp only [encode, if_neg hc, List.cons_append, hr, decode]
        rw [← hr, ih]
        rfl

end Quoted

/-- A text between two quotes, quotes inside doubled. -/
def quoteWith (quote : Char) (text : String) : String :=
  String.ofList (quote :: (Quoted.encode quote text.toList ++ [quote]))

def quoteIdentifier (name : String) : String := quoteWith '"' name

def quoteLiteral (text : String) : String := quoteWith '\'' text

end RecordMapper
