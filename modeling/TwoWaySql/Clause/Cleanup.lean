import TwoWaySql.Clause.Span
import TwoWaySql.Text.Blank
import TwoWaySql.Text.Word

/-!
# Tidying up clauses

Branches that were not taken leave clauses behind that are no SQL: a `WHERE` in front of a
conjunction or of nothing, a `SET` in front of a comma. Four rules, one after the other, take such
leftovers away. Keywords count in any case, and hidden spans are never looked into.
-/

namespace TwoWaySql.Clause

/-! ## Keywords -/

/-- Whether a character is a letter of a keyword, which is given in upper case. The long s is a
lower case of S. -/
def isLetter (letter c : Char) : Bool := c.toUpper == letter || (letter == 'S' && c == 'ſ')

/-- A keyword at the start of a text as it is written there, and what follows it. -/
def keyword? : (keyword : List Char) → List Char → Option (List Char × List Char)
  | [], s => some ([], s)
  | _ :: _, [] => none
  | letter :: keyword, c :: s =>
    if isLetter letter c then (keyword? keyword s).map fun (taken, rest) => (c :: taken, rest)
    else none

/-- The blanks at the start of a text, of which there is one at least, and what follows them. -/
def blanks? (s : List Char) : Option (List Char × List Char) :=
  let taken := s.takeWhile Text.isBlank
  if taken.isEmpty then none else some (taken, s.dropWhile Text.isBlank)

/-- Two keywords with blanks between them, and what follows them. -/
def keywords? (first second : String) (s : List Char) : Option (List Char × List Char) := do
  let (first, s) ← keyword? first.toList s
  let (between, s) ← blanks? s
  let (second, s) ← keyword? second.toList s
  return (first ++ between ++ second, s)

/-- The keyword that starts the next clause, and what follows it. A word ends behind it. -/
def nextClause? (s : List Char) : Option (List Char × List Char) := do
  let (taken, rest) ← keywords? "ORDER" "BY" s <|> keywords? "GROUP" "BY" s <|>
    keyword? "HAVING".toList s <|> keyword? "LIMIT".toList s <|> keyword? "UNION".toList s <|>
    keywords? "FOR" "UPDATE" s
  if Text.startsWithWord rest then none else return (taken, rest)

/-! ## Rules -/

/-- A place where a rule applies: the text that it takes and what it leaves of it. -/
structure Match where
  taken : List Char
  kept : List Char
  deriving DecidableEq, Repr

/-- A rule looks at a text and at the character in front of it. -/
abbrev Rule := Option Char → List Char → Option Match

/-- Applies a rule wherever it applies, from left to right. `skip` characters of the text have been
taken already. -/
def applyFrom (rule : Rule) : (skip : Nat) → (before : Option Char) → List Char → List Char
  | _, _, [] => []
  | skip + 1, _, c :: s => applyFrom rule skip (some c) s
  | 0, before, c :: s =>
    match rule before (c :: s) with
    | none => c :: applyFrom rule 0 (some c) s
    | some m => m.kept ++ applyFrom rule (m.taken.length - 1) (some c) s

/-- Applies a rule to a text. -/
def applyRule (rule : Rule) (s : List Char) : List Char := applyFrom rule 0 none s

/-- `WHERE AND x` becomes `WHERE x`. -/
def afterWhere : Rule := fun before s => do
  if before.any Text.isWord then none
  let (clause, s) ← keyword? "WHERE".toList s
  let (blanks, s) ← blanks? s
  let (conjunction, s) ← keyword? "AND".toList s <|> keyword? "OR".toList s
  let (behind, _) ← blanks? s
  return ⟨clause ++ blanks ++ conjunction ++ behind, clause ++ blanks⟩

/-- A `WHERE` at the end of a statement or of a part in parentheses goes away. -/
def whereAtEnd : Rule := fun _ s => do
  let (blanks, s) ← blanks? s
  let (clause, s) ← keyword? "WHERE".toList s
  let behind := s.takeWhile Text.isBlank
  let taken := blanks ++ clause ++ behind
  match s.dropWhile Text.isBlank with
  | [] => return ⟨taken, []⟩
  | c :: _ => if c = ')' || c = ';' then return ⟨taken ++ [c], [c]⟩ else none

/-- A `WHERE` in front of the next clause goes away. -/
def whereBeforeClause : Rule := fun _ s => do
  let (blanks, s) ← blanks? s
  let (clause, s) ← keyword? "WHERE".toList s
  let (between, s) ← blanks? s
  let (next, _) ← nextClause? s
  return ⟨blanks ++ clause ++ between ++ next, ' ' :: next⟩

/-- `SET , x` becomes `SET x`. -/
def afterSet : Rule := fun before s => do
  if before.any Text.isWord then none
  let (clause, s) ← keyword? "SET".toList s
  let (blanks, s) ← blanks? s
  match s with
  | ',' :: s => return ⟨clause ++ blanks ++ ',' :: s.takeWhile Text.isBlank, clause ++ blanks⟩
  | _ => none

/-- The rules in the order in which they are applied. -/
def rules : List Rule := [afterWhere, whereAtEnd, whereBeforeClause, afterSet]

/-- Applies all rules to a text without hidden spans. -/
def tidy (s : List Char) : List Char := rules.foldl (fun s rule => applyRule rule s) s

/-- Tidies up the clauses of a statement. -/
def clean (sql : String) : String :=
  let s := sql.toList
  String.ofList (unmask (spans s) (tidy (maskAll s)))

end TwoWaySql.Clause
