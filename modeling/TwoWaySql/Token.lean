import TwoWaySql.Position

/-!
# Tokens

The parts of a template in source order: text, variables and the marks of the directives.
-/

namespace TwoWaySql

/-- What a token stands for. -/
inductive TokenKind where
  /-- Text of the statement, escapes undone. -/
  | text (content : String)
  | ifThen (condition : String)
  | elseIf (condition : String)
  | otherwise
  /-- The end of a chain of conditions. -/
  | endIf
  | beginBlock
  /-- The end of an optional block. -/
  | endBlock
  /-- A value for the bind list; `paren` says that the dummy value was a group in parentheses. -/
  | bind (name : String) (paren : Bool)
  /-- A value written into the statement, as a literal if `quoted`. -/
  | embedded (name : String) (quoted : Bool)
  deriving DecidableEq, Repr

/-- A token and where it starts in the source. -/
structure Token where
  kind : TokenKind
  position : Position
  deriving DecidableEq, Repr

end TwoWaySql
