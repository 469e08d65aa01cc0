import TwoWaySql.Error
import TwoWaySql.Expr.Builtin
import TwoWaySql.Expr.Parse

/-!
# Evaluators

An evaluator decides conditions, which are texts. The stock evaluator reads them as expressions;
another one may have a language of its own.
-/

namespace TwoWaySql

/-- What decides conditions. -/
structure Evaluator where
  /-- The value of a condition. -/
  evaluate : String → Lookup → Except Error Value
  /-- The paths that a condition reads. Events show their values. -/
  identifiers : String → List String

namespace Evaluator

/-- The evaluator of a language that shows nothing of what its conditions read. -/
def ofEvaluate (evaluate : String → Lookup → Except Error Value) : Evaluator where
  evaluate := evaluate
  identifiers := fun _ => []

/-- The evaluator of expressions with the given functions. -/
def ofFunctions (functions : Functions) : Evaluator where
  evaluate := fun source l =>
    match Expr.parse source with
    | .error fault => .error (.evaluation source (fault.message source))
    | .ok e =>
      match e.eval functions l with
      | .ok v => .ok v
      | .error fault => .error (.evaluation source fault.message)
  identifiers := fun source =>
    match Expr.parse source with
    | .error _ => []
    | .ok e => e.paths

/-- The evaluator of expressions with the given functions in front of the built-in ones. -/
def stock (functions : Functions) : Evaluator := ofFunctions (functions ++ Builtin.functions)

end Evaluator

end TwoWaySql
