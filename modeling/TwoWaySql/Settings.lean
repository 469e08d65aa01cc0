import TwoWaySql.Decimal.Whole

/-!
# Settings

How a renderer writes placeholders, and what else it does.
-/

namespace TwoWaySql

/-- How placeholders are written. -/
inductive Placeholder where
  /-- A question mark. -/
  | question
  /-- A dollar sign and the number of the bind value, from one up. -/
  | numbered
  deriving DecidableEq, Repr, Inhabited

namespace Placeholder

/-- The greatest number of a placeholder. -/
def maxNumber : Nat := 0xFFFFFFFFFFFFFFFF

/-- The placeholder of the bind value at an index, counted from zero. -/
def text : Placeholder → Nat → String
  | question, _ => "?"
  | numbered, index => "$" ++ Decimal.whole (min (index + 1) maxNumber)

end Placeholder

/-- The settings of a renderer. -/
structure Settings where
  placeholder : Placeholder := .question
  /-- Whether the branches that a transformation takes are recorded. -/
  coverage : Bool := false
  /-- Whether clauses that are left without content are tidied up. -/
  clauseCleanup : Bool := false
  deriving DecidableEq, Repr, Inhabited

end TwoWaySql
