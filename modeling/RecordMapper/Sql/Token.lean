import RecordMapper.Text.Bytes
import RecordMapper.Text.Zero
import RecordMapper.Number.Numeral

/-!
# Tokens of a statement

A statement is cut into words, quoted names, literals, parameters and symbols. Blanks and comments
separate tokens and carry no meaning. Each token keeps its place, for reports of errors. A zero
character ends the text, so that a quoted name that has one is not closed.
-/

namespace RecordMapper.Sql

inductive Token
  /-- A word: a keyword or a name. -/
  | word (text : String)
  /-- A name in double quotes, grave accents or brackets. -/
  | name (text : String)
  | string (text : String)
  | blob (bytes : Bytes)
  | integer (digits : String)
  | real (numeral : Numeral)
  /-- A parameter: the sign with what follows it. -/
  | parameter (text : String)
  | symbol (text : String)
  /-- Characters that are no token. -/
  | illegal
  deriving DecidableEq, Repr, Inhabited

/-- A token with its spelling and its place in bytes. -/
structure Lexeme where
  token : Token
  spelling : String
  offset : Nat
  deriving DecidableEq, Repr, Inhabited

namespace Lexeme

def isIllegal (l : Lexeme) : Bool := l.token == .illegal

def isSpace (c : Char) : Bool :=
  c == ' ' || c == '\t' || c == '\n' || c == '\r' || c.toNat == 12

def isLetter (c : Char) : Bool := c.isAlpha || c == '_' || 128 ≤ c.toNat

def continuesName (c : Char) : Bool := isLetter c || isDigit c || c == '$'

/-- Drops a comment's text up to and including its end. -/
def dropBlockComment : List Char → List Char
  | '*' :: '/' :: r => r
  | _ :: r => dropBlockComment r
  | [] => []

/-- The symbols, longer ones first. -/
def symbols : List String :=
  ["->>", "||", "<=", "<>", "<<", ">=", ">>", "==", "!=", "->", "(", ")", ";", "+", "*", "/", "%",
    "=", "<", ">", ",", "&", "~", "|", ".", "-"]

/-- A numeral that is written as an integer, or one with point or exponent. -/
def numeralToken (n : Numeral) (spelling : List Char) : Token :=
  if n.integral then .integer (String.ofList spelling) else .real n

/-- The token of a quoted name, with the characters after it. -/
def quotedToken (quote : Char) (make : String → Token) (r : List Char) : Token × List Char :=
  match Quoted.decode quote r with
  | some (text, rest) => (make (String.ofList text), rest)
  | none => (.illegal, [])

def numberToken (cs : List Char) : Token × List Char :=
  match cs with
  | '0' :: x :: r =>
    let hex := r.takeWhile fun c => (Bytes.hexValue? c).isSome
    if (x == 'x' || x == 'X') && !hex.isEmpty then
      let rest := r.dropWhile fun c => (Bytes.hexValue? c).isSome
      if rest.head?.any continuesName then (.illegal, rest.dropWhile continuesName)
      else (.integer (String.ofList ('0' :: 'x' :: hex)), rest)
    else decimal cs
  | _ => decimal cs
where
  /-- A number in decimal digits. -/
  decimal (cs : List Char) : Token × List Char :=
    match Numeral.read cs with
    | none => (.illegal, cs.drop 1)
    | some (n, rest) =>
      if rest.head?.any continuesName then (.illegal, rest.dropWhile continuesName)
      else (numeralToken n (cs.take (cs.length - rest.length)), rest)

/-- Where the name of a parameter ends: its parts may be joined by double colons, and something in
parentheses may follow. It comes with whether the name is one; `n` characters of it were read. -/
def parameterEnd (n : Nat) : List Char → Bool × List Char
  | [] => (0 < n, [])
  | ':' :: ':' :: r => parameterEnd n r
  | c :: r =>
    if continuesName c then parameterEnd (n + 1) r
    else if c == '(' && 0 < n then
      match r.dropWhile fun x => x != ')' && !isSpace x with
      | ')' :: rest => (true, rest)
      | rest => (false, rest)
    else (0 < n, c :: r)

/-- The token at the head of a text that starts with no blank and no comment. -/
def tokenAt (c : Char) (r : List Char) : Token × List Char :=
  if c == '\'' then quotedToken c .string r
  else if c == '"' || c == '`' then quotedToken c .name r
  else if c == '[' then
    match r.dropWhile (· != ']') with
    | _ :: rest => (.name (String.ofList (r.takeWhile (· != ']'))), rest)
    | [] => (.illegal, [])
  else if isDigit c || (c == '.' && r.head?.any isDigit) then numberToken (c :: r)
  else if c == '?' then
    (.parameter (String.ofList (c :: r.takeWhile isDigit)), r.dropWhile isDigit)
  else if c == ':' || c == '@' || c == '$' || c == '#' then
    let (good, rest) := parameterEnd 0 r
    if good then (.parameter (String.ofList (c :: r.take (r.length - rest.length))), rest)
    else (.illegal, rest)
  else if (c == 'x' || c == 'X') && r.head? == some '\'' then
    let digits := (r.drop 1).takeWhile (· != '\'')
    let rest := ((r.drop 1).dropWhile (· != '\'')).drop 1
    match Bytes.ofHexChars? digits with
    | some bytes =>
      if (r.drop 1).contains '\'' then (.blob bytes, rest) else (.illegal, [])
    | none => (.illegal, rest)
  else if isLetter c then
    (.word (String.ofList (c :: r.takeWhile continuesName)), r.dropWhile continuesName)
  else
    match symbols.find? fun s => s.toList.isPrefixOf (c :: r) with
    | some s => (.symbol s, (c :: r).drop s.length)
    | none => (.illegal, r)

/-- Cuts a text into lexemes; each step of the fuel takes one character at least. -/
def scan : Nat → Nat → List Char → List Lexeme
  | 0, _, _ => []
  | _ + 1, _, [] => []
  | fuel + 1, offset, c :: r =>
    let skip (rest : List Char) : List Lexeme :=
      scan fuel (offset + Bytes.lengthOf ((c :: r).take (r.length + 1 - rest.length))) rest
    if isSpace c then skip r
    else if c == '-' && r.head? == some '-' then skip (r.dropWhile (· != '\n'))
    else if c == '/' && r.head? == some '*' then skip (dropBlockComment (r.drop 1))
    else
      let (token, rest) := tokenAt c r
      let spelling := (c :: r).take (r.length + 1 - rest.length)
      ⟨token, String.ofList spelling, offset⟩ :: scan fuel (offset + Bytes.lengthOf spelling) rest

/-- The lexemes of a text up to its first zero character. -/
def ofText (text : String) : List Lexeme :=
  let cs := beforeZero text.toList
  scan (cs.length + 1) 0 cs

end Lexeme

end RecordMapper.Sql
