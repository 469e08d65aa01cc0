import TwoWaySql.Expr
import TwoWaySql.Name
import TwoWaySql.Text.Blank

/-!
# Reading expressions

From weakest to strongest, the operators are `||` or `or`, `&&` or `and`, `!` or `not`, the
comparisons and the minus sign. The logical operators of two operands chain to the left, a
comparison does not chain, and the operand of a negation may be a comparison. Blanks may stand
between any two parts.

Parentheses, negations, signs and argument lists nest. What stands inside one of them is read by a
`Level`, so the readers of one level are plain functions of the level below it, and `Level.atDepth`
stacks as many of them as may be nested.
-/

namespace TwoWaySql

/-- Why a text is no expression. `rest` is what is left of the text where the fault lies. -/
inductive ExprFault where
  | expected (what : String) (rest : List Char)
  | tooDeep (rest : List Char)
  | unterminatedText (quote : Char)
  | integerTooLarge (digits : List Char)
  deriving DecidableEq, Repr

namespace Expr

/-- How deep parentheses, negations, signs and argument lists may be nested. -/
def maxNesting : Nat := 64

/-- The offset in a source of what is left of it, in bytes of UTF-8. -/
def offsetOf (source : String) (rest : List Char) : Nat :=
  source.utf8ByteSize - (String.ofList rest).utf8ByteSize

end Expr

/-- A fault in words. -/
def ExprFault.message (source : String) : ExprFault → String
  | expected what [] => s!"expected {what}, found end of expression"
  | expected what (c :: rest) =>
    s!"expected {what} at position {Expr.offsetOf source (c :: rest)}, found '{c}'"
  | tooDeep rest =>
    s!"expression nested deeper than {Expr.maxNesting} levels at position " ++
      s!"{Expr.offsetOf source rest}"
  | unterminatedText quote => s!"unterminated string literal (expected {quote})"
  | integerTooLarge digits =>
    "invalid number '" ++ String.ofList digits ++ "': number too large to fit in target type"

namespace Expr

/-- A reader takes a part of an expression off a text and leaves the rest. -/
abbrev Reader (α : Type) := List Char → Except ExprFault (α × List Char)

/-- The readers for what stands inside a nested construct. -/
structure Level where
  disjunction : Reader Expr
  negation : Reader Expr
  unary : Reader Expr
  /-- The arguments of a call, up to and with the parenthesis that closes them. -/
  arguments : Reader (List Expr)

/-! ## Words, marks and literals -/

/-- What follows a word at the start of a text, if the word ends there. -/
def afterWord? (word s : List Char) : Option (List Char) :=
  match Text.after? word s with
  | none => none
  | some rest => if rest.head?.any Name.isInner then none else some rest

/-- What follows an operator that means "or". -/
def afterOr? (s : List Char) : Option (List Char) :=
  Text.after? ['|', '|'] s <|> afterWord? ['o', 'r'] s

/-- What follows an operator that means "and". -/
def afterAnd? (s : List Char) : Option (List Char) :=
  Text.after? ['&', '&'] s <|> afterWord? ['a', 'n', 'd'] s

/-- The comparison at the start of a text, and what follows it. -/
def comparison? : List Char → Option (Comparison × List Char)
  | '=' :: '=' :: rest => some (.eq, rest)
  | '!' :: '=' :: rest => some (.ne, rest)
  | '<' :: '=' :: rest => some (.le, rest)
  | '>' :: '=' :: rest => some (.ge, rest)
  | '<' :: rest => some (.lt, rest)
  | '>' :: rest => some (.gt, rest)
  | _ => none

/-- The content of a quoted text behind its opening quote, and what follows the closing one. A
backslash stands in front of a character that is meant as it is. -/
def quoted? (quote : Char) : List Char → Option (List Char × List Char)
  | [] => none
  | ['\\'] => none
  | '\\' :: c :: rest => (quoted? quote rest).map fun (content, after) => (c :: content, after)
  | c :: rest =>
    if c = quote then some ([], rest)
    else (quoted? quote rest).map fun (content, after) => (c :: content, after)

/-- The greatest integer that can be written without a sign. -/
def maxInteger : Nat := 0x7FFFFFFFFFFFFFFF

/-- A number: digits, with a point and further digits behind them if it is a float. -/
def number (s : List Char) : Except ExprFault (Expr × List Char) :=
  let whole := s.takeWhile Char.isDigit
  match s.dropWhile Char.isDigit with
  | '.' :: rest =>
    let fraction := rest.takeWhile Char.isDigit
    if fraction.isEmpty then integer whole ('.' :: rest)
    else
      let x := Float.ofScientific (Decimal.ofDigits (whole ++ fraction)) true fraction.length
      .ok (literal (.float x), rest.dropWhile Char.isDigit)
  | rest => integer whole rest
where
  /-- The integer that digits stand for. -/
  integer (digits rest : List Char) : Except ExprFault (Expr × List Char) :=
    let n := Decimal.ofDigits digits
    if n ≤ maxInteger then .ok (literal (.int (Int64.ofNat n)), rest)
    else .error (.integerTooLarge digits)

/-! ## The readers of one level -/

section Readers

variable (deeper : Level)

/-- A word: a literal, a call or a path. -/
def word (s : List Char) : Except ExprFault (Expr × List Char) :=
  let rest := s.dropWhile Name.isPart
  match String.ofList (s.takeWhile Name.isPart) with
  | "null" => .ok (literal .null, rest)
  | "true" => .ok (literal (.bool true), rest)
  | "false" => .ok (literal (.bool false), rest)
  | name =>
    match Text.trimStart rest with
    | '(' :: rest => (deeper.arguments rest).map fun (es, rest) => (call name es, rest)
    | rest => .ok (path name, rest)

/-- An operand that carries no sign. -/
def primary (s : List Char) : Except ExprFault (Expr × List Char) :=
  match Text.trimStart s with
  | [] => .error (.expected "an operand" [])
  | c :: rest =>
    if c = '(' then
      match deeper.disjunction rest with
      | .error fault => .error fault
      | .ok (e, rest) =>
        match Text.trimStart rest with
        | ')' :: rest => .ok (e, rest)
        | rest => .error (.expected "')'" rest)
    else if c = '\'' || c = '"' then
      match quoted? c rest with
      | some (content, rest) => .ok (literal (.string (String.ofList content)), rest)
      | none => .error (.unterminatedText c)
    else if c.isDigit then number (c :: rest)
    else if Name.isStart c then word deeper (c :: rest)
    else .error (.expected "an operand" (c :: rest))

/-- An operand with its signs. -/
def unary (s : List Char) : Except ExprFault (Expr × List Char) :=
  match Text.trimStart s with
  | '-' :: rest => (deeper.unary rest).map fun (e, rest) => (neg e, rest)
  | s => primary deeper s

/-- One operand, or two with a comparison between them. -/
def comparison (s : List Char) : Except ExprFault (Expr × List Char) :=
  match unary deeper s with
  | .error fault => .error fault
  | .ok (left, rest) =>
    let rest := Text.trimStart rest
    match comparison? rest with
    | none => .ok (left, rest)
    | some (op, rest) => (unary deeper rest).map fun (right, rest) => (compare op left right, rest)

/-- A comparison with its negations. -/
def negation (s : List Char) : Except ExprFault (Expr × List Char) :=
  let negated (rest : List Char) := (deeper.negation rest).map fun (e, rest) => (not e, rest)
  match Text.trimStart s with
  | '!' :: '=' :: rest => .error (.expected "an operand" ('!' :: '=' :: rest))
  | '!' :: rest => negated rest
  | s =>
    match afterWord? ['n', 'o', 't'] s with
    | some rest => negated rest
    | none => comparison deeper s

/-- The operators and operands that follow the operand `left`, grouped to the left. Each operator
takes a character at least, so as many steps as there are characters are enough. -/
def chain (operand : Reader Expr) (afterOperator? : List Char → Option (List Char))
    (combine : Expr → Expr → Expr) :
    (steps : Nat) → (left : Expr) → List Char → Except ExprFault (Expr × List Char)
  | 0, left, rest => .ok (left, rest)
  | steps + 1, left, rest =>
    let rest := Text.trimStart rest
    match afterOperator? rest with
    | none => .ok (left, rest)
    | some rest =>
      match operand rest with
      | .error fault => .error fault
      | .ok (right, rest) => chain operand afterOperator? combine steps (combine left right) rest

/-- Operands with an operator between each two. -/
def chained (operand : Reader Expr) (afterOperator? : List Char → Option (List Char))
    (combine : Expr → Expr → Expr) (s : List Char) : Except ExprFault (Expr × List Char) :=
  match operand s with
  | .error fault => .error fault
  | .ok (left, rest) => chain operand afterOperator? combine rest.length left rest

/-- Negations with "and" between each two. -/
def conjunction : Reader Expr := chained (negation deeper) afterAnd? and

/-- Conjunctions with "or" between each two. -/
def disjunction : Reader Expr := chained (conjunction deeper) afterOr? or

/-- One argument at least, up to and with the closing parenthesis. Each step takes a comma, so one
step more than there are characters is enough. -/
def someArguments : (steps : Nat) → List Char → Except ExprFault (List Expr × List Char)
  | 0, s => .error (.expected "an operand" s)
  | steps + 1, s =>
    match disjunction deeper s with
    | .error fault => .error fault
    | .ok (e, rest) =>
      match Text.trimStart rest with
      | ',' :: rest => (someArguments steps rest).map fun (es, rest) => (e :: es, rest)
      | ')' :: rest => .ok ([e], rest)
      | rest => .error (.expected "',' or ')'" rest)

/-- The arguments of a call behind its opening parenthesis. -/
def arguments (s : List Char) : Except ExprFault (List Expr × List Char) :=
  match Text.trimStart s with
  | ')' :: rest => .ok ([], rest)
  | s => someArguments deeper (s.length + 1) s

end Readers

/-! ## Nesting -/

namespace Level

/-- The level at which nothing may be nested any more. -/
def refusing : Level where
  disjunction := fun rest => .error (.tooDeep rest)
  negation := fun rest => .error (.tooDeep rest)
  unary := fun rest => .error (.tooDeep rest)
  arguments := fun rest => .error (.tooDeep rest)

/-- The level around another one. -/
def around (deeper : Level) : Level where
  disjunction := Expr.disjunction deeper
  negation := Expr.negation deeper
  unary := Expr.unary deeper
  arguments := Expr.arguments deeper

/-- The level that has the given number of levels to itself and below it. -/
def atDepth : Nat → Level
  | 0 => refusing
  | n + 1 => around (atDepth n)

end Level

def parse (source : String) : Except ExprFault Expr :=
  match (Level.atDepth (maxNesting + 1)).disjunction source.toList with
  | .error fault => .error fault
  | .ok (e, rest) =>
    match Text.trimStart rest with
    | [] => .ok e
    | rest => .error (.expected "end of expression" rest)

end Expr

end TwoWaySql
