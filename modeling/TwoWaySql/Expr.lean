import TwoWaySql.Value

/-!
# Conditions as expressions

The expressions that conditions are written in: literals, paths to parameters, function calls,
logical operators, sign and comparisons. They have no side effects.
-/

namespace TwoWaySql

/-- How two values are compared. -/
inductive Comparison where
  | eq
  | ne
  | lt
  | le
  | gt
  | ge
  deriving DecidableEq, Repr

/-- Whether a comparison holds of two values that are ordered in the given way. -/
def Comparison.admits : Comparison → Ordering → Bool
  | eq, o => o.isEq
  | ne, o => o.isNe
  | lt, o => o.isLT
  | le, o => o.isLE
  | gt, o => o.isGT
  | ge, o => o.isGE

/-- An expression. -/
inductive Expr where
  | literal (v : Value)
  | path (path : String)
  | call (name : String) (arguments : List Expr)
  | not (operand : Expr)
  | neg (operand : Expr)
  | and (left right : Expr)
  | or (left right : Expr)
  | compare (op : Comparison) (left right : Expr)
  deriving Inhabited

namespace Expr

mutual

/-- The paths of an expression in the order in which they are written, with repetitions. -/
def allPaths : Expr → List String
  | literal _ => []
  | path p => [p]
  | call _ arguments => allPathsOf arguments
  | not operand => allPaths operand
  | neg operand => allPaths operand
  | and left right => allPaths left ++ allPaths right
  | or left right => allPaths left ++ allPaths right
  | compare _ left right => allPaths left ++ allPaths right

/-- The paths of expressions in a row. -/
def allPathsOf : List Expr → List String
  | [] => []
  | e :: rest => allPaths e ++ allPathsOf rest

end

/-- The paths of an expression in the order of their first occurrence. -/
def paths (e : Expr) : List String := e.allPaths.eraseDups

end Expr

end TwoWaySql
