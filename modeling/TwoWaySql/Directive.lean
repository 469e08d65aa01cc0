import TwoWaySql.Error
import TwoWaySql.Name
import TwoWaySql.Text.Blank

/-!
# Directives

A block comment whose first character is a letter, an underscore, a dollar or a number sign is a
directive. `Directive.read` says what it means, from the text between the comment's marks alone;
whether it may stand where it stands is a matter of nesting.
-/

namespace TwoWaySql

/-- What a comment says to the template. -/
inductive Directive where
  /-- The value of a name goes to the bind list. -/
  | bind (name : String)
  /-- The value of a name is written into the statement, as a literal if `quoted`. -/
  | embedded (name : String) (quoted : Bool)
  | ifThen (condition : String)
  /-- A further condition of a chain; `word` is the spelling of the directive. -/
  | elseIf (word condition : String)
  | otherwise
  | beginBlock
  | close
  deriving DecidableEq, Repr

namespace Directive

/-- Whether the content of a comment makes it a directive. -/
def isDirective : List Char → Bool
  | [] => false
  | c :: _ => c.isAlpha || c == '_' || c == '#' || c == '$'

/-- The fault of a text that should be a name and is none. -/
def notAName (text : List Char) : SyntaxFault :=
  .invalidIdentifier (String.ofList (text.take 1))

/-- A directive that embeds a value: its name follows the sign. -/
def readEmbedded (quoted : Bool) (text : List Char) : Except SyntaxFault Directive :=
  let name := Text.trim text
  if Name.isValid name then .ok (.embedded (String.ofList name) quoted)
  else .error (notAName name)

/-- A directive that needs a condition behind its word. -/
def withCondition (word : String) (rest : List Char) (make : String → Directive) :
    Except SyntaxFault Directive :=
  if rest.isEmpty then .error (.expected ("an expression after " ++ word))
  else .ok (make (String.ofList rest))

/-- A directive that stands alone. -/
def alone (word : String) (rest : List Char) (d : Directive) : Except SyntaxFault Directive :=
  if rest.isEmpty then .ok d
  else .error (.expected ("'*/' after " ++ word ++ ", found '" ++ String.ofList rest ++ "'"))

/-- A directive that starts with a word: a keyword, or a name that is bound. -/
def readWord (word rest : List Char) : Except SyntaxFault Directive :=
  match String.ofList word with
  | "IF" => withCondition "IF" rest .ifThen
  | "ELIF" => withCondition "ELIF" rest (.elseIf "ELIF")
  | "ELSEIF" => withCondition "ELSEIF" rest (.elseIf "ELSEIF")
  | "ELSE" => alone "ELSE" rest .otherwise
  | "BEGIN" => alone "BEGIN" rest .beginBlock
  | "END" => alone "END" rest .close
  | keyword =>
    if rest.isEmpty then
      if Name.isValid word then .ok (.bind keyword) else .error (notAName word)
    else .error (.unknownKeyword keyword)

/-- The directive in the content of a comment. -/
def read (content : List Char) : Except SyntaxFault Directive :=
  match Text.trimEnd content with
  | '$' :: rest => readEmbedded false rest
  | '#' :: rest => readEmbedded true rest
  | text => readWord (text.takeWhile Name.isPart) (Text.trim (text.dropWhile Name.isPart))

end Directive

end TwoWaySql
