import RecordMapper.Sql.Syntax
import RecordMapper.Sql.Token

/-!
# Reading statements

A statement is read from its lexemes from left to right. Operators bind by the table
`binaryOperator?`; equal power groups to the left. The first lexeme that fits no statement is
reported, or the end of the text.
-/

namespace RecordMapper.Sql

/-- Where reading stops: at a lexeme that does not fit, or at the end of the text. -/
inductive SyntaxFault
  | near (l : Lexeme)
  /-- A numbered parameter whose number is out of range. -/
  | parameterNumber (l : Lexeme)
  | incomplete
  deriving DecidableEq, Repr, Inhabited

abbrev Parser := StateT (List Lexeme) (Except SyntaxFault)

/-- The greatest number of a parameter. -/
def maxParameter : Nat := 32766

namespace Parser

/-! ## Lexemes -/

def fail {α : Type} : Parser α := fun
  | l :: _ => .error (.near l)
  | [] => .error .incomplete

def peek : Parser (Option Lexeme) := fun ls => .ok (ls.head?, ls)

def next : Parser Lexeme := fun
  | l :: r => .ok (l, r)
  | [] => .error .incomplete

/-- Words that are never names. -/
def reserved : List String :=
  ["add", "all", "alter", "and", "as", "autoincrement", "between", "case", "check", "collate",
    "commit", "constraint", "create", "default", "deferrable", "delete", "distinct", "drop", "else",
    "escape", "except", "exists", "foreign", "from", "group", "having", "in", "index", "insert",
    "intersect", "into", "is", "isnull", "join", "limit", "not", "nothing", "notnull", "null", "on",
    "or", "order", "primary", "references", "returning", "select", "set", "table", "then", "to",
    "transaction", "union", "unique", "update", "using", "values", "when", "where", "cross", "full",
    "inner", "left", "natural", "outer", "right"]

def isWord (w : String) (l : Lexeme) : Bool :=
  match l.token with
  | .word text => foldCase text == w
  | _ => false

def isSymbol (s : String) (l : Lexeme) : Bool := l.token == .symbol s

def ahead (test : Lexeme → Bool) : Parser Bool := do return (← peek).any test

def takeIf (test : Lexeme → Bool) : Parser Bool := do
  if ← ahead test then
    let _ ← next
    return true
  else return false

def takeWord (w : String) : Parser Bool := takeIf (isWord w)

def takeSymbol (s : String) : Parser Bool := takeIf (isSymbol s)

def demand (test : Lexeme → Bool) : Parser Unit := do if !(← takeIf test) then fail

def word (w : String) : Parser Unit := demand (isWord w)

def symbol (s : String) : Parser Unit := demand (isSymbol s)

/-- The name that a lexeme may be: a word that is not reserved, or a quoted name. -/
def nameOf? (l : Lexeme) : Option String :=
  match l.token with
  | .word text => if reserved.contains (foldCase text) then none else some text
  | .name text => some text
  | _ => none

/-- A name; a text in single quotes counts as one. -/
def name : Parser String := do
  match ← peek with
  | some l =>
    match l.token, nameOf? l with
    | .string text, _ => let _ ← next; return text
    | _, some text => let _ ← next; return text
    | _, none => fail
  | none => fail

/-- Items separated by commas, at most as many as the fuel. -/
def commaList {α : Type} (item : Parser α) : Nat → Parser (List α)
  | 0 => fail
  | fuel + 1 => do
    let a ← item
    if ← takeSymbol "," then return a :: (← commaList item fuel) else return [a]

/-- A parser with the number of lexemes left as fuel. -/
def withFuel {α : Type} (p : Nat → Parser α) : Parser α := fun ls => p (ls.length + 1) ls

/-! ## Expressions -/

def binaryOperator? (l : Lexeme) : Option (Operator × Nat) :=
  match l.token with
  | .symbol "=" | .symbol "==" => some (.eq, 4)
  | .symbol "<>" | .symbol "!=" => some (.ne, 4)
  | .symbol "<" => some (.lt, 5)
  | .symbol "<=" => some (.le, 5)
  | .symbol ">" => some (.gt, 5)
  | .symbol ">=" => some (.ge, 5)
  | .symbol "&" => some (.bitAnd, 7)
  | .symbol "|" => some (.bitOr, 7)
  | .symbol "<<" => some (.shiftLeft, 7)
  | .symbol ">>" => some (.shiftRight, 7)
  | .symbol "+" => some (.add, 8)
  | .symbol "-" => some (.sub, 8)
  | .symbol "*" => some (.mul, 9)
  | .symbol "/" => some (.div, 9)
  | .symbol "%" => some (.rem, 9)
  | .symbol "||" => some (.concat, 10)
  | .word w =>
    if foldCase w = "or" then some (.or, 1) else if foldCase w = "and" then some (.and, 2) else none
  | _ => none

/-- The negation that a lexeme starts, with the power of its operand. -/
def negation? (l : Lexeme) : Option (Negation × Nat) :=
  match l.token with
  | .symbol "-" => some (.minus, 12)
  | .symbol "+" => some (.plus, 12)
  | .symbol "~" => some (.complement, 12)
  | .word w => if foldCase w = "not" then some (.not, 3) else none
  | _ => none

def literal? (l : Lexeme) : Option Cell :=
  match l.token with
  | .string s => some (.text s)
  | .blob bytes => some (.blob bytes)
  | .integer digits =>
    match digits.toList with
    | '0' :: 'x' :: hex =>
      let n := hex.foldl (fun n c => 16 * n + (Bytes.hexValue? c).getD 0) 0
      some (.integer (Int64.ofNat n))
    | cs => some (Cell.ofInt (digitsValue cs))
  | .real n => some (Cell.ofFloat n.toFloat)
  | .word w => if foldCase w = "null" then some .null else none
  | _ => none

/-- The forms after an operand that share the power of equality. -/
inductive Trailing
  | isNull (negated : Bool)
  | is
  | between (negated : Bool)
  | inside (negated : Bool)
  | like (negated : Bool)
  deriving DecidableEq, Repr

/-- The form that the next two lexemes start, and how many of them it takes. -/
def trailing? (l : Lexeme) (after : Option Lexeme) : Option (Trailing × Nat) :=
  let second (w : String) : Bool := after.any (isWord w)
  if isWord "isnull" l then some (.isNull false, 1)
  else if isWord "notnull" l then some (.isNull true, 1)
  else if isWord "is" l then some (.is, 1)
  else if isWord "between" l then some (.between false, 1)
  else if isWord "in" l then some (.inside false, 1)
  else if isWord "like" l then some (.like false, 1)
  else if isWord "not" l then
    if second "null" then some (.isNull true, 2)
    else if second "between" then some (.between true, 2)
    else if second "in" then some (.inside true, 2)
    else if second "like" then some (.like true, 2)
    else none
  else none

/-- The name of a type: words in a row, with numbers in parentheses after them. -/
def typeWords : Nat → Parser (List String)
  | 0 => return []
  | fuel + 1 => do
    match ← peek with
    | some l =>
      match l.token, nameOf? l with
      | .string text, _ => let _ ← next; return text :: (← typeWords fuel)
      | _, some _ =>
        if isWord "generated" l then return []
        else let _ ← next; return l.spelling :: (← typeWords fuel)
      | _, none => return []
    | none => return []

/-- A number with an optional sign, as it is spelled. -/
def signedNumber : Parser String := do
  let sign ← if ← takeSymbol "-" then pure "-" else if ← takeSymbol "+" then pure "+" else pure ""
  match ← peek with
  | some l =>
    match l.token with
    | .integer _ | .real _ => let _ ← next; return sign ++ l.spelling
    | _ => fail
  | none => fail

/-- A type, empty where there is none. -/
def typeName : Parser String := do
  let words ← withFuel typeWords
  if words.isEmpty then return ""
  let base := " ".intercalate words
  if ← takeSymbol "(" then
    let first ← signedNumber
    let rest ← if ← takeSymbol "," then pure ("," ++ (← signedNumber)) else pure ""
    symbol ")"
    return base ++ "(" ++ first ++ rest ++ ")"
  else return base

mutual

/-- An expression whose operators have at least the given power. -/
def scalar : Nat → Nat → Parser Scalar
  | 0, _ => fail
  | fuel + 1, power => do
    let a ← operand fuel
    operators fuel power a

/-- Operators of at least the given power after an operand. -/
def operators : Nat → Nat → Scalar → Parser Scalar
  | 0, _, a => return a
  | fuel + 1, power, a => fun ls =>
    match ls with
    | [] => .ok (a, [])
    | l :: r =>
      match binaryOperator? l with
      | some (op, p) =>
        if p < power then .ok (a, ls)
        else (do
          let b ← scalar fuel (p + 1)
          operators fuel power (.binary op a b)) r
      | none =>
        if isWord "collate" l then
          if 11 < power then .ok (a, ls)
          else (do operators fuel power (.collate a (← name))) r
        else
          match trailing? l r.head? with
          | none => .ok (a, ls)
          | some (form, taken) =>
            if 4 < power then .ok (a, ls)
            else (do operators fuel power (← trailed fuel form a)) (ls.drop taken)

/-- The rest of a form after its operand. -/
def trailed : Nat → Trailing → Scalar → Parser Scalar
  | 0, _, _ => fail
  | fuel + 1, form, a => do
    match form with
    | .isNull negated => return .isNull negated a
    | .is =>
      let negated ← takeWord "not"
      if ← takeWord "distinct" then
        word "from"
        return .binary (if negated then .is else .isNot) a (← scalar fuel 5)
      else return .binary (if negated then .isNot else .is) a (← scalar fuel 5)
    | .between negated =>
      let low ← scalar fuel 3
      word "and"
      return .between negated a low (← scalar fuel 5)
    | .like negated =>
      let pattern ← scalar fuel 5
      let escape ← if ← takeWord "escape" then (do return some (← scalar fuel 7)) else pure none
      return .like negated a pattern escape
    | .inside negated =>
      if ← takeSymbol "(" then
        if ← takeSymbol ")" then return .inList negated a []
        else
          let items ← scalars fuel
          symbol ")"
          return .inList negated a items
      else return .inTable negated a (← name)

def scalars : Nat → Parser (List Scalar)
  | 0 => fail
  | fuel + 1 => do
    let a ← scalar fuel 0
    if ← takeSymbol "," then return a :: (← scalars fuel) else return [a]

def arguments : Nat → String → Nat → Parser Scalar
  | 0, _, _ => fail
  | fuel + 1, function, offset => do
    if ← takeSymbol "*" then
      symbol ")"
      return .call function false true [] offset
    else if ← takeSymbol ")" then return .call function false false [] offset
    else
      let distinct ← takeWord "distinct"
      let items ← scalars fuel
      symbol ")"
      return .call function distinct false items offset

def branches : Nat → Parser (List (Scalar × Scalar))
  | 0 => fail
  | fuel + 1 => do
    word "when"
    let test ← scalar fuel 0
    word "then"
    let result ← scalar fuel 0
    if ← ahead (isWord "when") then return (test, result) :: (← branches fuel)
    else return [(test, result)]

/-- A parameter; a number sign with digits is none, and a number has to be in range. -/
def parameter (l : Lexeme) : List Char → Parser Scalar
  | '#' :: c :: _ => do
    if isDigit c then fail
    let _ ← next
    return .parameter l.offset
  | '?' :: d :: ds => do
    let n := digitsValue (d :: ds)
    if n = 0 ∨ maxParameter < n then throw (.parameterNumber l)
    let _ ← next
    return .parameter l.offset
  | _ => do
    let _ ← next
    return .parameter l.offset

/-- An expression without operators outside parentheses, or a negation. -/
def operand : Nat → Parser Scalar
  | 0 => fail
  | fuel + 1 => do
    match ← peek with
    | none => fail
    | some l =>
      match negation? l, literal? l with
      | some (op, power), _ =>
        let _ ← next
        return .negate op (← scalar fuel power)
      | none, some v =>
        let _ ← next
        return .literal v
      | none, none =>
        match l.token with
        | .parameter text =>
          parameter l text.toList
        | .symbol "(" =>
          let _ ← next
          let items ← scalars fuel
          symbol ")"
          match items with
          | [a] => return a
          | items => return .row items l.offset
        | _ =>
          if isWord "cast" l then
            let _ ← next
            symbol "("
            let a ← scalar fuel 0
            word "as"
            let type ← typeName
            symbol ")"
            return .cast a type
          else if isWord "case" l then
            let _ ← next
            let subject ←
              if ← ahead (isWord "when") then pure none else (do return some (← scalar fuel 0))
            let tests ← branches fuel
            let otherwise ←
              if ← takeWord "else" then (do return some (← scalar fuel 0)) else pure none
            word "end"
            return .cases subject tests otherwise
          else
            match nameOf? l with
            | none => fail
            | some text =>
              let _ ← next
              let quoted := match l.token with
                | .name _ => true
                | _ => false
              if ← takeSymbol "(" then arguments fuel text l.offset
              else if ← takeSymbol "." then
                let column ← name
                return .column (some text) column true l.offset
              else return .column none text quoted l.offset

end

def anyScalar : Parser Scalar := withFuel fun n => scalar (8 * n) 0

/-! ## Spelling -/

def endOf (l : Lexeme) : Nat := l.offset + l.spelling.utf8ByteSize

/-- The part of a text between two places in bytes. -/
def slice (text : String) (start stop : Nat) : String :=
  ((String.fromUTF8? (text.toUTF8.extract start stop)).getD "")

/-- What a parser reads, with the text it reads it from. -/
def spelled {α : Type} (text : String) (p : Parser α) : Parser (α × String) := fun ls => do
  let (a, rest) ← p ls
  let taken := ls.take (ls.length - rest.length)
  match taken.head?, taken.getLast? with
  | some first, some last => return ((a, slice text first.offset (endOf last)), rest)
  | _, _ => return ((a, ""), rest)

/-- Where the next lexeme stands, or the text ends. -/
def placeAhead (text : String) : Parser Nat := do
  return (← peek).elim text.utf8ByteSize Lexeme.offset

/-! ## Select -/

/-- An alias: after `as` any name, otherwise a word that is not reserved or a quoted name. -/
def aliasName : Parser (Option String) := do
  if ← takeWord "as" then return some (← name)
  else
    match ← peek with
    | some l =>
      match l.token, nameOf? l with
      | .string text, _ => let _ ← next; return some text
      | _, some text => let _ ← next; return some text
      | _, none => return none
    | none => return none

def selection (text : String) : Parser Selection := fun ls =>
  match ls with
  | a :: b :: c :: r =>
    if isSymbol "*" a then .ok (.all none, b :: c :: r)
    else if isSymbol "." b && isSymbol "*" c && (nameOf? a).isSome then
      .ok (.all (nameOf? a), r)
    else single ls
  | a :: r => if isSymbol "*" a then .ok (.all none, r) else single ls
  | [] => single ls
where
  /-- An expression with an optional alias. -/
  single : Parser Selection := do
    let (a, spelling) ← spelled text anyScalar
    return .scalar a (← aliasName) spelling

def orderTerm : Parser OrderTerm := do
  let scalar ← anyScalar
  if ← takeWord "desc" then return ⟨scalar, true⟩
  let _ ← takeWord "asc"
  return ⟨scalar, false⟩

def clause {α : Type} (w : String) (p : Parser α) : Parser (Option α) := do
  if ← takeWord w then return some (← p) else return none

def source : Parser Source := do
  let table ← name
  return ⟨table, ← aliasName⟩

def select (text : String) : Parser Select := do
  let distinct ← takeWord "distinct"
  let _ ← takeWord "all"
  let selections ← withFuel (commaList (selection text))
  let source ← clause "from" source
  let condition ← clause "where" anyScalar
  let orderings ← clause "order" (do word "by"; withFuel (commaList orderTerm))
  let limit ← clause "limit" anyScalar
  let (limit, offset) ←
    match limit with
    | none => pure (none, none)
    | some first =>
      if ← takeWord "offset" then (do return (some first, some (← anyScalar)))
      else if ← takeSymbol "," then (do return (some (← anyScalar), some first))
      else pure (some first, none)
  return { distinct, selections, source, condition, orderings := orderings.getD [], limit, offset }

/-! ## Changes -/

/-- The reaction to a violated constraint, after `or`. -/
def conflict : Parser Conflict := do
  if ← takeWord "or" then
    if ← takeWord "replace" then return .replace
    else if ← takeWord "ignore" then return .ignore
    else if ← takeWord "abort" then return .abort
    else if ← takeWord "fail" then return .fail
    else if ← takeWord "rollback" then return .rollback
    else fail
  else return .abort

def tuple : Parser (List Scalar) := do
  symbol "("
  let items ← withFuel (commaList anyScalar)
  symbol ")"
  return items

def names : Parser (List String) := do
  symbol "("
  let items ← withFuel (commaList name)
  symbol ")"
  return items

def insertInto (text : String) (mode : Conflict) : Parser Statement := do
  word "into"
  let table ← name
  let columns ← if ← ahead (isSymbol "(") then (do return some (← names)) else pure none
  if ← takeWord "values" then
    return .insert mode table columns (.values (← withFuel (commaList tuple)))
  else if ← takeWord "select" then
    return .insert mode table columns (.select (← select text))
  else
    if ← takeWord "default" then
      word "values"
      return .insert mode table columns .defaults
    else fail

def setting : Parser (String × Scalar) := do
  let column ← name
  symbol "="
  return (column, ← anyScalar)

def update : Parser Statement := do
  let mode ← conflict
  let table ← name
  word "set"
  let settings ← withFuel (commaList setting)
  return .update mode table settings (← clause "where" anyScalar)

def delete : Parser Statement := do
  word "from"
  let table ← name
  return .delete table (← clause "where" anyScalar)

/-! ## Definitions -/

/-- A conflict clause of a constraint, which says nothing new here. -/
def onConflict : Parser Unit := do
  if ← takeWord "on" then
    word "conflict"
    let _ ← next

/-- The constraint of a column that the next words start. -/
def columnConstraint? (text : String) : Parser (Option ColumnConstraint) := do
  let label ← if ← takeWord "constraint" then (do return some (← name)) else pure none
  if ← takeWord "primary" then
    word "key"
    let descending ← takeWord "desc"
    let _ ← takeWord "asc"
    onConflict
    return some (.primaryKey descending (← takeWord "autoincrement"))
  else if ← takeWord "not" then
    word "null"
    onConflict
    return some .notNull
  else if ← takeWord "null" then
    onConflict
    return some .nullable
  else if ← takeWord "unique" then
    onConflict
    return some .unique
  else if ← takeWord "collate" then return some (.collate (← name))
  else if ← takeWord "check" then
    symbol "("
    let (condition, spelling) ← spelled text anyScalar
    symbol ")"
    return some (.check condition (label.getD spelling))
  else if ← takeWord "default" then
    let bracketed ← ahead (isSymbol "(")
    let (value, spelling) ← spelled text (withFuel fun n => scalar (8 * n) 12)
    let inner := if bracketed then String.ofList ((spelling.toList.drop 1).dropLast) else spelling
    return some (.default value inner)
  else return none

def columnConstraints (text : String) : Nat → Parser (List ColumnConstraint)
  | 0 => return []
  | fuel + 1 => do
    match ← columnConstraint? text with
    | some c => return c :: (← columnConstraints text fuel)
    | none => return []

def columnSpec (text : String) : Parser ColumnSpec := do
  let column ← name
  let type ← typeName
  return ⟨column, type, ← withFuel (columnConstraints text)⟩

/-- Whether a constraint of the whole table follows. -/
def tableConstraintAhead : Parser Bool :=
  ahead fun l => isWord "constraint" l || isWord "primary" l || isWord "unique" l
    || isWord "check" l || isWord "foreign" l

/-- Column names with directions and collations, in parentheses. -/
def indexedColumns : Parser (List IndexedColumn) := do
  symbol "("
  let item : Parser IndexedColumn := do
    let first ← peek
    let place := first.elim 0 Lexeme.offset
    let quoted := first.elim false fun l => l.spelling.startsWith "\""
    let column ← name
    let collation ← clause "collate" name
    let _ ← takeWord "desc"
    let _ ← takeWord "asc"
    return ⟨column, quoted, collation, place⟩
  let items ← withFuel (commaList item)
  symbol ")"
  return items

def tableConstraint (text : String) : Parser TableConstraint := do
  let label ← if ← takeWord "constraint" then (do return some (← name)) else pure none
  if ← takeWord "primary" then
    word "key"
    let columns ← indexedColumns
    onConflict
    return .primaryKey columns
  else if ← takeWord "unique" then
    let columns ← indexedColumns
    onConflict
    return .unique columns
  else
    word "check"
    symbol "("
    let (condition, spelling) ← spelled text anyScalar
    symbol ")"
    return .check condition (label.getD spelling)

/-- Columns and then constraints, separated by commas, with the place where the columns end. -/
def tableItems (text : String) : Nat → Parser (List ColumnSpec × List TableConstraint × Nat)
  | 0 => fail
  | fuel + 1 => do
    let column ← columnSpec text
    let place ← placeAhead text
    if ← takeSymbol "," then
      if ← tableConstraintAhead then
        return ([column], ← withFuel (commaList (tableConstraint text)), place)
      else
        let (columns, constraints, place) ← tableItems text fuel
        return (column :: columns, constraints, place)
    else return ([column], [], place)

def ifNotExists : Parser Bool := do
  if ← takeWord "if" then
    word "not"
    word "exists"
    return true
  else return false

def ifExists : Parser Bool := do
  if ← takeWord "if" then
    word "exists"
    return true
  else return false

def createTable (text : String) : Parser Statement := do
  let lenient ← ifNotExists
  let offset ← placeAhead text
  let (table, spelling) ← spelled text name
  symbol "("
  let (columns, constraints, place) ← withFuel (tableItems text)
  let closing ← placeAhead text
  symbol ")"
  let withoutRowid ← takeWord "without"
  if withoutRowid then word "rowid"
  let stop ← if withoutRowid then placeAhead text else pure (closing + 1)
  let definition : DefinitionText :=
    ⟨"CREATE TABLE ", spelling, slice text (offset + spelling.utf8ByteSize) place,
      slice text place stop⟩
  return .createTable lenient ⟨table, definition, offset, columns, constraints, withoutRowid⟩

def createIndex (text : String) (unique : Bool) : Parser Statement := do
  word "index"
  let lenient ← ifNotExists
  let start ← placeAhead text
  let index ← name
  word "on"
  let place ← placeAhead text
  let (table, spelling) ← spelled text name
  let columns ← indexedColumns
  let stop ← placeAhead text
  let head := if unique then "CREATE UNIQUE INDEX " else "CREATE INDEX "
  return .createIndex unique lenient index table columns
    ⟨head ++ slice text start place, spelling,
      slice text (place + spelling.utf8ByteSize) stop, ""⟩

def alterTable (text : String) : Parser Statement := do
  word "table"
  let table ← name
  if ← takeWord "rename" then
    word "to"
    return .renameTable table (← name)
  else
    word "add"
    let _ ← takeWord "column"
    let (column, spelling) ← spelled text (columnSpec text)
    return .addColumn table column spelling

def pragma : Parser Statement := do
  let pragma ← name
  if ← takeSymbol "=" then
    let l ← next
    return .pragma pragma (some ((nameOf? l).getD l.spelling))
  else if ← takeSymbol "(" then
    let l ← next
    symbol ")"
    let argument := match l.token with
      | .string text => text
      | _ => (nameOf? l).getD l.spelling
    return .pragma pragma (some argument)
  else return .pragma pragma none

/-! ## Transactions -/

def transactionWord : Parser Unit := do
  if ← takeWord "transaction" then
    if ← ahead (fun l => (nameOf? l).isSome && !isWord "to" l) then
      let _ ← name

def begin : Parser Statement := do
  let mode ←
    if ← takeWord "immediate" then pure BeginMode.immediate
    else if ← takeWord "exclusive" then pure BeginMode.exclusive
    else
      let _ ← takeWord "deferred"
      pure BeginMode.deferred
  transactionWord
  return .begin mode

def rollback : Parser Statement := do
  transactionWord
  if ← takeWord "to" then
    let _ ← takeWord "savepoint"
    return .rollbackTo (← name)
  else return .rollback

/-! ## Statements -/

def values (text : String) : Parser Statement := do
  let item : Parser (List (Scalar × String)) := do
    symbol "("
    let items ← withFuel (commaList (spelled text anyScalar))
    symbol ")"
    return items
  return .values (← withFuel (commaList item))

def statement (text : String) : Parser Statement := do
  if ← takeWord "select" then return .select (← select text)
  else if ← takeWord "values" then values text
  else if ← takeWord "insert" then insertInto text (← conflict)
  else if ← takeWord "replace" then insertInto text .replace
  else if ← takeWord "update" then update
  else if ← takeWord "delete" then delete
  else if ← takeWord "create" then
    if ← takeWord "table" then createTable text
    else if ← takeWord "unique" then createIndex text true
    else createIndex text false
  else if ← takeWord "drop" then
    if ← takeWord "table" then return .dropTable (← ifExists) (← name)
    else
      word "index"
      return .dropIndex (← ifExists) (← name)
  else if ← takeWord "alter" then alterTable text
  else if ← takeWord "pragma" then pragma
  else if ← takeWord "begin" then begin
  else if ← takeWord "commit" then (do transactionWord; return .commit)
  else if ← takeWord "end" then (do transactionWord; return .commit)
  else if ← takeWord "rollback" then rollback
  else if ← takeWord "savepoint" then return .savepoint (← name)
  else if ← takeWord "release" then
    let _ ← takeWord "savepoint"
    return .release (← name)
  else fail

end Parser

/-! ## Parameters -/

/-- The parameters of a statement: the index of each by its place, and the name of each index. -/
structure Parameters where
  indices : List (Nat × Nat) := []
  names : List (Option String) := []
  deriving DecidableEq, Repr, Inhabited

namespace Parameters

/-- Adds the parameter of a lexeme: a bare sign opens a new index, a number is its own index and
names it if nothing does yet, and a name keeps the index that it got first. -/
def add (p : Parameters) (l : Lexeme) : Parameters :=
  match l.token with
  | .parameter "?" => ⟨p.indices ++ [(l.offset, p.names.length + 1)], p.names ++ [none]⟩
  | .parameter text =>
    match text.toList with
    | '?' :: ds =>
      let n := digitsValue ds
      let names := p.names ++ List.replicate (n - p.names.length) none
      ⟨p.indices ++ [(l.offset, n)], names.modify (n - 1) fun name => name.or (some text)⟩
    | _ =>
      match p.names.findIdx? (· == some text) with
      | some i => ⟨p.indices ++ [(l.offset, i + 1)], p.names⟩
      | none => ⟨p.indices ++ [(l.offset, p.names.length + 1)], p.names ++ [some text]⟩
  | _ => p

def ofLexemes (ls : List Lexeme) : Parameters := ls.foldl add {}

def indexAt (p : Parameters) (offset : Nat) : Nat :=
  ((p.indices.find? fun (place, _) => place == offset).map Prod.snd).getD 0

def count (p : Parameters) : Nat := p.names.length

def named? (p : Parameters) (name : String) : Option Nat :=
  (p.names.findIdx? (· == some name)).map (· + 1)

end Parameters

/-- The lexemes of the first statement of a text, the end mark included; empty statements before it
are skipped. -/
def firstStatement (text : String) : List Lexeme :=
  let ls := (Lexeme.ofText text).dropWhile (Parser.isSymbol ";")
  let body := ls.takeWhile fun l => !Parser.isSymbol ";" l
  body ++ (ls.drop body.length).take 1

/-- Refuses lexemes among which one is illegal: at this one, unless reading stops before it. -/
def legally {α : Type} (ls : List Lexeme) (read : Except SyntaxFault α) : Except SyntaxFault α := do
  let a ← read
  match ls.find? Lexeme.isIllegal with
  | none => return a
  | some l => throw (.near l)

/-- Reads the first statement of a text; nothing but blanks and comments is no statement. -/
def readStatement (text : String) : Except SyntaxFault (Option Statement × Parameters) :=
  match firstStatement text with
  | [] => .ok (none, {})
  | ls => legally ls do
    let (statement, rest) ← Parser.statement text ls
    match rest with
    | [] => return (some statement, Parameters.ofLexemes ls)
    | l :: _ =>
      if Parser.isSymbol ";" l then return (some statement, Parameters.ofLexemes ls)
      else throw (.near l)

end RecordMapper.Sql
