import TwoWaySql.Position

/-!
# Errors

Everything that can go wrong with a template, as data: faults in the notation of directives, faults
in their nesting, and failures while a template is transformed. `Error.message` is the one place
where an error is put into words.
-/

namespace TwoWaySql

/-- A fault in how a directive, a dummy value or a literal is written. -/
inductive SyntaxFault where
  | unterminatedComment
  | unterminatedString
  | unterminatedParen
  /-- A directive should hold a name and does not; `start` is its first character, if it has one. -/
  | invalidIdentifier (start : String)
  | unknownKeyword (keyword : String)
  | expected (description : String)
  deriving DecidableEq, Repr

/-- A fault in how directives are nested. -/
inductive NestingFault where
  | unmatchedEnd
  | alternateWithoutIf (directive : String)
  | alternateAfterElse (directive : String)
  | unterminated (directive : String)
  | tooDeep (limit : Nat)
  deriving DecidableEq, Repr

/-- What can go wrong while a template is read or transformed. -/
inductive Error where
  | parse (position : Position) (fault : SyntaxFault)
  | structural (position : Position) (fault : NestingFault)
  /-- A condition has a value that is no boolean; `found` names its type. -/
  | evaluationType (expression found : String)
  | missingParameter (name : String)
  /-- A condition or a path cannot be evaluated. -/
  | evaluation (expression message : String)
  deriving DecidableEq, Repr

/-- A syntax fault in words. -/
def SyntaxFault.message : SyntaxFault → String
  | unterminatedComment => "Unterminated comment (expected '*/')"
  | unterminatedString => "Unterminated string literal (expected \"'\")"
  | unterminatedParen => "Unterminated parenthesised value (expected ')')"
  | invalidIdentifier start => "Invalid identifier starting with '" ++ start ++ "'"
  | unknownKeyword keyword => "Unknown keyword '" ++ keyword ++ "'"
  | expected description => "Expected " ++ description

/-- A nesting fault in words. -/
def NestingFault.message : NestingFault → String
  | unmatchedEnd => "/*END*/ without an open /*IF*/ or /*BEGIN*/"
  | alternateWithoutIf directive => "/*" ++ directive ++ "*/ outside of an /*IF*/ block"
  | alternateAfterElse directive => "/*" ++ directive ++ "*/ after /*ELSE*/"
  | unterminated directive =>
    "unterminated directive /*" ++ directive ++ "*/ (expected /*END*/)"
  | tooDeep limit => s!"directives nested deeper than {limit} levels"

namespace Error

/-- An error in words. -/
def message : Error → String
  | parse position fault => "Parse error at " ++ position.text ++ ": " ++ fault.message
  | structural position fault => "Structural error at " ++ position.text ++ ": " ++ fault.message
  | evaluationType expression found =>
    "Condition '" ++ expression ++ "' evaluated to " ++ found ++ ", expected a boolean"
  | missingParameter name => "Parameter not found: " ++ name
  | evaluation expression message => "Could not evaluate '" ++ expression ++ "': " ++ message

/-- Whether the error is found when a template is read, and not when it is transformed. -/
def isParseTime : Error → Bool
  | parse _ _ | structural _ _ => true
  | evaluationType _ _ | missingParameter _ | evaluation _ _ => false

/-- Where in the source the error lies, if it was found when the template was read. -/
def position? : Error → Option Position
  | parse position _ | structural position _ => some position
  | _ => none

end Error

end TwoWaySql
