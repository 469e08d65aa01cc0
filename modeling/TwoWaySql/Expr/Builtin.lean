import TwoWaySql.Expr.Eval
import TwoWaySql.Text.Blank

/-!
# Functions of the stock evaluator

Tests for emptiness, tests on texts and sizes. Their names start with `SF.`.
-/

namespace TwoWaySql.Builtin

/-- Whether a value holds nothing: null, or a text, a list or a map without content. -/
def holdsNothing : Value → Bool
  | .null => true
  | .string s => s.isEmpty
  | .list items => items.isEmpty
  | .map entries => entries.isEmpty
  | _ => false

/-- Whether a value holds nothing or is a text of blanks. -/
def holdsBlanks : Value → Bool
  | .string s => s.toList.all Text.isBlank
  | v => holdsNothing v

/-- A test of a single argument. -/
def testOne (test : Value → Bool) : Function
  | [v] => .ok (.bool (test v))
  | arguments => .error s!"expected 1 argument, found {arguments.length}"

/-- A test of two texts. It fails if one of them is null. -/
def testTexts (test : List Char → List Char → Bool) : Function
  | [.string s, .string t] => .ok (.bool (test s.toList t.toList))
  | [.null, _] => .ok (.bool false)
  | [_, .null] => .ok (.bool false)
  | [v, w] => .error ("expected two strings, found " ++ v.typeName ++ " and " ++ w.typeName)
  | arguments => .error s!"expected 2 arguments, found {arguments.length}"

def contains : Function
  | [.list items, v] => .ok (.bool (items.any (Value.same · v)))
  | arguments => testTexts (fun s part => Text.occursIn part s) arguments

def size : Function
  | [.null] => .ok (.int 0)
  | [.string s] => .ok (.int (Int64.ofNat s.length))
  | [.list items] => .ok (.int (Int64.ofNat items.length))
  | [.map entries] => .ok (.int (Int64.ofNat entries.length))
  | [v] => .error (v.typeName ++ " has no size")
  | arguments => .error s!"expected 1 argument, found {arguments.length}"

/-- The functions by name. -/
def functions : Functions :=
  [("SF.isEmpty", testOne holdsNothing),
   ("SF.isNotEmpty", testOne fun v => !holdsNothing v),
   ("SF.isBlank", testOne holdsBlanks),
   ("SF.isNotBlank", testOne fun v => !holdsBlanks v),
   ("SF.contains", contains),
   ("SF.startsWith", testTexts fun s t => t.isPrefixOf s),
   ("SF.endsWith", testTexts fun s t => t.isSuffixOf s),
   ("SF.size", size)]

end TwoWaySql.Builtin
