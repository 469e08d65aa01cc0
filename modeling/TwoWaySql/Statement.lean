import TwoWaySql.Coverage
import TwoWaySql.Settings
import TwoWaySql.Value

/-!
# Statements

What a transformation yields: the text of a statement and the values for its placeholders. While it
is under construction a statement is a row of fragments, and placeholders are numbered only when it
is complete.
-/

namespace TwoWaySql

/-- A piece of a statement. -/
inductive Fragment where
  | text (content : String)
  | placeholder
  deriving DecidableEq, Repr

namespace Fragment

/-- The text of fragments in a row; `index` is the index of the first placeholder. -/
def layOut (style : Placeholder) : (index : Nat) → List Fragment → String
  | _, [] => ""
  | index, text content :: rest => content ++ layOut style index rest
  | index, placeholder :: rest => style.text index ++ layOut style (index + 1) rest

/-- One more fragment in front of fragments that are in reverse order. Texts that meet become one,
and an empty text is left out. -/
def push (f : Fragment) (fragments : List Fragment) : List Fragment :=
  match f, fragments with
  | text content, text before :: rest =>
    if content.isEmpty then text before :: rest else text (before ++ content) :: rest
  | text content, rest => if content.isEmpty then rest else text content :: rest
  | placeholder, rest => placeholder :: rest

end Fragment

/-- A value for a placeholder and the name of the variable that it comes from. -/
structure BoundValue where
  name : String
  value : Value
  deriving BEq

/-- A statement with the values for its placeholders in order. -/
structure Statement where
  sql : String
  binds : List BoundValue
  /-- What happened to the branches, if it was recorded. -/
  coverage : Option Coverage
  deriving BEq

end TwoWaySql
